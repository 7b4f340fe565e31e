import DearSql.AnalyzerBounds
import DearSql.TokenViews

/-! FROM clauses whose items are tables, with commas and joins between them. -/
namespace DearSql
open Lexing Loops

section Statements

/-- A table of a FROM clause: the parts of its path and an alias, after AS or bare. -/
structure FromItem where
  head : Name
  parts : List Name := []
  alias_ : Option (Bool × Name) := none

/-- What stands between two items, and after the second of them. -/
inductive Separator
  | comma
  /-- With the two sides of the condition that follows the item. -/
  | join (lhs rhs : Name)

def Separator.isJoin : Separator → Bool
  | .comma => false
  | .join _ _ => true

def partToks (parts : List Name) : List Sym := parts.flatMap fun p => [.punct '.', p.sym]

def aliasToks : Option (Bool × Name) → List Sym
  | none => []
  | some (false, n) => [n.sym]
  | some (true, n) => [.word "AS".toList, n.sym]

namespace FromItem

variable (it : FromItem)

def toks : List Sym := it.head.sym :: (partToks it.parts ++ aliasToks it.alias_)

def path : List Text := it.head.text :: it.parts.map Name.text

def aliasText : Text := (it.alias_.map fun p => p.2.text).getD []

/-- The reference that the item declares in group `g`. -/
def ref (g : ℤ) : RelationRef where
  name := if it.aliasText ≠ [] then it.aliasText else it.path.getLastD []
  alias_ := it.aliasText
  path := it.path
  group := g

end FromItem

def separatedToks : Separator × FromItem → List Sym
  | (.comma, it) => .punct ',' :: it.toks
  | (.join lhs rhs, it) =>
    .word "JOIN".toList :: (it.toks ++ [.word "ON".toList, lhs.sym, .op "=".toList, rhs.sym])

/-- `SELECT * FROM` and the items. -/
structure FromList where
  first : FromItem
  rest : List (Separator × FromItem) := []

namespace FromList

variable (q : FromList)

def toks : List Sym :=
  .word "SELECT".toList :: .op "*".toList :: .word "FROM".toList ::
    (q.first.toks ++ q.rest.flatMap separatedToks)

def items : List FromItem := q.first :: q.rest.map Prod.snd

end FromList
end Statements

section Items

variable {toks post : List Sym} {j : ℤ}

/-- What may follow an item: no part, no alias and no arguments. -/
def EndsItem (post : List Sym) : Prop :=
  ∀ t ∈ post.head?, t ≠ .punct '.' ∧ t ≠ .punct '(' ∧ t.isKw "AS" = false ∧ t.isNameIdent = false

theorem pathTurn_parts {parts : List Name} (h : Sees toks j (partToks parts ++ post))
    (hpost : ∀ t ∈ post.head?, t ≠ .punct '.') (path : List Text) {n : ℕ} (hn : parts.length < n) :
    loop (pathTurn toks) n (j, path) =
      some (j + (partToks parts).length, path ++ parts.map Name.text) := by
  obtain ⟨n, rfl⟩ : ∃ k, n = k + 1 := ⟨n - 1, by omega⟩
  induction parts generalizing j path n with
  | nil =>
    have hdot : isPunct toks j '.' = false := by
      cases post with
      | nil => exact isPunct_past h.at '.'
      | cons t ts =>
        rw [isPunct_of_at h.at]
        simpa using hpost t rfl
    have hturn : pathTurn toks (j, path) = some (.done (j, path)) := by
      rw [pathTurn, if_neg (by simp [hdot])]
    rw [loop_done hturn]
    simp [partToks]
  | cons p parts ih =>
    have hdot : isPunct toks j '.' = true := by
      rw [isPunct_of_at h.at]
      rfl
    have hat : at? toks (j + 1) = some p.sym := h.tail.at
    have hturn : pathTurn toks (j, path) = some (.next (j + 2, path ++ [p.text])) := by
      rw [pathTurn, if_pos ⟨hdot, by rw [isIdent_of_at hat, p.isIdent]⟩, textAt_of_at hat]
      rfl
    have hrest : Sees toks (j + 2) (partToks parts ++ post) := by
      have := h.tail.tail
      rwa [add_assoc] at this
    obtain ⟨m, rfl⟩ : ∃ m, n = m + 1 := ⟨n - 1, by simp at hn; omega⟩
    rw [loop_next hturn, ih hrest _ _ (by simpa using hn)]
    simp [partToks]
    ring

theorem aliasAt_alias {alias_ : Option (Bool × Name)} (h : Sees toks j (aliasToks alias_ ++ post))
    (hpost : EndsItem post) : aliasAt toks false j =
      some ((alias_.map fun p => p.2.text).getD [], j + (aliasToks alias_).length) := by
  unfold aliasAt
  match alias_ with
  | none =>
    have hno : isKw toks j "AS" = false ∧ isNameIdent toks j = false := by
      cases post with
      | nil => exact ⟨isKw_past h.at _, isNameIdent_past h.at⟩
      | cons t ts =>
        obtain ⟨-, -, has, hname⟩ := hpost t rfl
        rw [isKw_of_at h.at, isNameIdent_of_at h.at]
        exact ⟨has, hname⟩
    rw [hno.1, hno.2]
    simp [aliasToks]
  | some (false, n) =>
    have hat : at? toks j = some n.sym := h.at
    rw [isKw_of_at hat, n.isKw (by decide), isNameIdent_of_at hat, n.isNameIdent, textAt_of_at hat]
    simp [aliasToks, Name.text]
  | some (true, n) =>
    have has : isKw toks j "AS" = true := by
      rw [isKw_of_at h.at]
      rfl
    have hat : at? toks (j + 1) = some n.sym := h.tail.at
    rw [has, isIdent_of_at hat, n.isIdent, textAt_of_at hat]
    simp [aliasToks, Name.text]

variable {b : Brackets} {it : FromItem} {g : ℤ}

theorem relationHead_item (h : Sees b.toks j (it.toks ++ post)) (hpost : EndsItem post) :
    relationHead b false g j = some (some ({ group := g, path := it.path },
      j + 1 + (partToks it.parts).length)) := by
  have hat : at? b.toks j = some it.head.sym := h.at
  have hparts : Sees b.toks (j + 1) (partToks it.parts ++ (aliasToks it.alias_ ++ post)) := by
    simpa using h.tail
  have halias : ∀ t ∈ (aliasToks it.alias_ ++ post).head?,
      t ≠ .punct '.' ∧ t ≠ .punct '(' := by
    match it.alias_ with
    | none => exact fun t ht => ⟨(hpost t ht).1, (hpost t ht).2.1⟩
    | some (false, n) =>
      rintro t ⟨⟩
      exact ⟨n.ne_punct '.', n.ne_punct '('⟩
    | some (true, n) =>
      rintro t ⟨⟩
      decide
  have hlen : it.parts.length < b.toks.length + 1 := by
    have h1 := h.length
    have h2 := h.nonneg
    have h3 : it.parts.length ≤ (partToks it.parts).length := by
      simp only [partToks, List.length_flatMap, List.length_cons, List.length_nil,
        List.map_const', List.sum_replicate, smul_eq_mul]
      omega
    simp only [FromItem.toks, List.length_append, List.length_cons] at h1
    omega
  have hcall : isPunct b.toks (j + 1 + (partToks it.parts).length) '(' = false := by
    have hrest := hparts.drop
    cases hr : aliasToks it.alias_ ++ post with
    | nil => exact isPunct_past (by rw [hrest.at, hr]; rfl) _
    | cons t ts =>
      rw [isPunct_of_at (by rw [hrest.at, hr]; rfl)]
      exact decide_eq_false (halias t (by rw [hr]; rfl)).2
  have hpath := pathTurn_parts hparts (fun t ht => (halias t ht).1) [it.head.text] hlen
  rw [relationHead, isPunct_of_at hat, isNameIdent_of_at hat, it.head.isNameIdent,
    textAt_of_at hat]
  simp only [it.head.ne_punct, decide_false, Bool.false_eq_true, if_false, if_true,
    Option.bind_eq_bind, Option.bind_some]
  rw [show it.head.sym.text = it.head.text from rfl, hpath]
  simp [hcall, FromItem.path]

theorem FromItem.ref_name_ne (it : FromItem) (g : ℤ) : (it.ref g).name ≠ [] := by
  have htexts : ∀ t ∈ it.path, t ≠ [] := by
    intro t ht
    rcases List.mem_cons.mp ht with rfl | ht
    · exact it.head.text_ne
    · obtain ⟨p, -, rfl⟩ := List.mem_map.mp ht
      exact p.text_ne
  have hlast : it.path.getLastD [] ∈ it.path := by
    rw [List.getLastD_eq_getLast?, List.getLast?_eq_some_getLast (by simp [FromItem.path])]
    exact List.getLast_mem _
  unfold FromItem.ref
  split_ifs with halias
  · exact halias
  · exact htexts _ hlast

theorem relationTail_item (h : Sees b.toks j (aliasToks it.alias_ ++ post))
    (hpost : EndsItem post) : relationTail b false { group := g, path := it.path } j =
      some (it.ref g, j + (aliasToks it.alias_).length) := by
  have hcols : ∀ (alias_ : Text) (k : ℤ),
      aliasColumns b { group := g, path := it.path } alias_ k = some ([], k) := by
    intro alias_ k
    rw [aliasColumns, if_neg (by simp)]
  rw [relationTail, aliasAt_alias h hpost, Option.bind_eq_bind, Option.bind_some]
  simp only [hcols, Option.bind_eq_bind, Option.bind_some]
  rfl

/-- An item and whether another one follows it. -/
theorem relationTurn_item (hg : b.groupOf j = some g) (h : Sees b.toks j (it.toks ++ post))
    (hpost : EndsItem post) (list : Bool) (refs : List RelationRef) :
    relationTurn b list false g (j, refs) =
      some (if list && isPunct b.toks (j + it.toks.length) ',' then
        .next (j + it.toks.length + 1, refs ++ [it.ref g]) else .done (refs ++ [it.ref g])) := by
  have hat : at? b.toks j = some it.head.sym := h.at
  have hskip : loop (skipTurn b.toks) (b.toks.length + 1) j = some j := by
    refine loop_done ?_
    rw [skipTurn, isKwIn_of_at hat, it.head.isKwIn (by decide)]
    rfl
  have halias : Sees b.toks (j + 1 + (partToks it.parts).length) (aliasToks it.alias_ ++ post) := by
    have hparts : Sees b.toks (j + 1) (partToks it.parts ++ (aliasToks it.alias_ ++ post)) := by
      simpa using h.tail
    exact hparts.drop
  have hend : j + 1 + (partToks it.parts).length + (aliasToks it.alias_).length =
      j + it.toks.length := by
    simp only [FromItem.toks, List.length_append, List.length_cons]
    push_cast
    ring
  unfold relationTurn
  rw [if_pos (by exact h.lt), hg]
  simp only [Option.bind_eq_bind, Option.bind_some, ne_eq, not_true, if_false, hskip,
    relationHead_item h hpost, relationTail_item halias hpost, hend, it.ref_name_ne g,
    not_false_eq_true, if_true]
  split_ifs <;> rfl

end Items

section Turns

variable {b : Brackets} {i : ℤ} {t : Sym} {ts post : List Sym} {refs : List RelationRef}

def relationWords : List String :=
  ["FROM", "USING", "JOIN", "UPDATE", "INTO", "TABLE", "STRAIGHT_JOIN"]

/-- The references that the tokens from index `i` on add. -/
def refsOver (b : Brackets) (i : ℤ) (ts : List Sym) (refs : List RelationRef) :
    Option (List RelationRef) :=
  (upTo i (i + ts.length)).foldlM (refTurn b) refs

theorem collectRefs_eq (b : Brackets) : collectRefs b = refsOver b 0 b.toks [] := by
  rw [collectRefs, refsOver, zero_add]
  rfl

theorem refsOver_nil : refsOver b i [] refs = some refs := by
  rw [refsOver, upTo_nil (by simp)]
  rfl

theorem refsOver_cons : refsOver b i (t :: ts) refs =
    (refTurn b refs i).bind (refsOver b (i + 1) ts) := by
  rw [refsOver, upTo_cons (by simp), List.foldlM_cons]
  have hend : i + ((t :: ts).length : ℤ) = i + 1 + ts.length := by
    simp only [List.length_cons]
    push_cast
    ring
  rw [hend]
  rfl

theorem refsOver_append (xs ys : List Sym) : refsOver b i (xs ++ ys) refs =
    (refsOver b i xs refs).bind (refsOver b (i + xs.length) ys) := by
  induction xs generalizing i refs with
  | nil => simp [refsOver_nil]
  | cons t xs ih =>
    rw [List.cons_append, refsOver_cons, refsOver_cons, Option.bind_assoc]
    congr 1
    funext refs'
    rw [ih]
    congr 2
    simp only [List.length_cons]
    push_cast
    ring

theorem refTurn_quiet (hat : at? b.toks i = some t) (ht : t.isKwIn relationWords = false) :
    refTurn b refs i = some refs := by
  have hkw : ∀ kw ∈ relationWords, isKw b.toks i kw = false := by
    intro kw hkw
    rw [isKw_of_at hat]
    simpa using List.any_eq_false.mp ht kw hkw
  have hno : isRelationKeyword b i = some false := by
    simp only [isRelationKeyword, isKwIn, List.any_cons, List.any_nil, hkw "FROM" (by decide),
      hkw "USING" (by decide), hkw "JOIN" (by decide), hkw "UPDATE" (by decide),
      hkw "INTO" (by decide), hkw "TABLE" (by decide), hkw "STRAIGHT_JOIN" (by decide),
      Bool.false_eq_true, if_false, Bool.or_false]
  obtain ⟨create, hcreate, -⟩ := isCreateTable_yields b.toks i
  unfold refTurn
  rw [hat, Option.bind_eq_bind, Option.bind_some, hno, hcreate]
  simp

theorem refsOver_quiet (h : Sees b.toks i (ts ++ post))
    (hts : ∀ t ∈ ts, t.isKwIn relationWords = false) : refsOver b i ts refs = some refs := by
  induction ts generalizing i with
  | nil => exact refsOver_nil
  | cons t ts ih =>
    rw [refsOver_cons, refTurn_quiet h.at (hts t List.mem_cons_self), Option.bind_some]
    exact ih h.tail fun u hu => hts u (List.mem_cons_of_mem _ hu)

/-- The calls whose arguments have a FROM of their own. -/
def fromCalls : List String := ["EXTRACT", "SUBSTRING", "SUBSTR", "TRIM", "OVERLAY", "POSITION"]

theorem isRelationKeyword_from {g : ℤ} (hat : at? b.toks i = some (.word "FROM".toList))
    (hbefore : isKw b.toks (i - 1) "DISTINCT" = false) (hg : b.groupOf i = some g)
    (hcall : 0 < g → ∃ x, at? b.groups g = some x ∧
      isKwIn b.toks (x.openAt - 1) fromCalls = false) : isRelationKeyword b i = some true := by
  rw [isRelationKeyword, isKw_of_at hat, if_pos (by decide), isTableFrom, hbefore, hg]
  by_cases hpos : 0 < g
  · obtain ⟨x, hx, hno⟩ := hcall hpos
    rw [fromCalls] at hno
    simp [hpos, hx, hno]
  · simp [hpos]

/-- A keyword that starts a list of relations has it parsed. -/
theorem refTurn_list {w : Text} (hat : at? b.toks i = some (.word w))
    (hrel : isRelationKeyword b i = some true) (htable : ieq w "TABLE".toList = false) :
    refTurn b refs i = parseRelationList b i refs := by
  have hno : isKw b.toks i "TABLE" = false := by
    rw [isKw_of_at hat]
    exact htable
  obtain ⟨create, hcreate, -⟩ := isCreateTable_yields b.toks i
  unfold refTurn
  rw [hat, Option.bind_eq_bind, Option.bind_some, hrel, hcreate]
  simp [hno, Sym.isWord]

end Turns

section Lists

variable {b : Brackets} {i j : ℤ} {it : FromItem} {rest : List (Separator × FromItem)}
  {post : List Sym} {refs : List RelationRef}

/-- The items that commas join to the first one. -/
def commaItems (rest : List (Separator × FromItem)) : List FromItem :=
  (rest.takeWhile fun s => !s.1.isJoin).map Prod.snd

def joinItems (rest : List (Separator × FromItem)) : List FromItem :=
  (rest.filter fun s => s.1.isJoin).map Prod.snd

theorem endsItem_join (ts : List Sym) : EndsItem (.word "JOIN".toList :: ts) := by
  rintro t ⟨⟩
  decide

theorem endsItem_on (ts : List Sym) : EndsItem (.word "ON".toList :: ts) := by
  rintro t ⟨⟩
  decide

theorem endsItem_comma (ts : List Sym) : EndsItem (.punct ',' :: ts) := by
  rintro t ⟨⟩
  decide

theorem endsItem_rest (hpost : EndsItem post) (rest : List (Separator × FromItem)) :
    EndsItem (rest.flatMap separatedToks ++ post) := by
  match rest with
  | [] => exact hpost
  | (.comma, it) :: rest => exact endsItem_comma _
  | (.join lhs rhs, it) :: rest => exact endsItem_join _

theorem isComma_rest (h : Sees b.toks j (rest.flatMap separatedToks ++ post))
    (hpost : post.head? ≠ some (.punct ',')) :
    isPunct b.toks j ',' = (rest.head?.map fun s => !s.1.isJoin).getD false := by
  rw [isPunct, h.at]
  cases rest with
  | nil => simpa using hpost
  | cons s rest =>
    obtain ⟨separator, it⟩ := s
    cases separator with
    | comma => rfl
    | join lhs rhs => rfl

theorem length_rest_le (rest : List (Separator × FromItem)) :
    rest.length ≤ (rest.flatMap separatedToks).length := by
  induction rest with
  | nil => exact le_rfl
  | cons s rest ih =>
    have hpos : 0 < (separatedToks s).length := by
      match s with
      | (.comma, _) => simp [separatedToks]
      | (.join _ _, _) => simp [separatedToks]
    rw [List.flatMap_cons, List.length_append, List.length_cons]
    omega

/-- From FROM, the list is followed up to the first join. -/
theorem relationTurn_list {g : ℤ} (hg : ∀ k, 0 ≤ k → k < b.size → b.groupOf k = some g)
    (h : Sees b.toks j (it.toks ++ (rest.flatMap separatedToks ++ post))) (hpost : EndsItem post)
    (hcomma : post.head? ≠ some (.punct ',')) {n : ℕ} (hn : rest.length < n) :
    loop (relationTurn b true false g) n (j, refs) =
      some (refs ++ (it :: commaItems rest).map fun x => x.ref g) := by
  obtain ⟨n, rfl⟩ : ∃ k, n = k + 1 := ⟨n - 1, by omega⟩
  have hturn := relationTurn_item (hg j h.nonneg h.lt) h (endsItem_rest hpost rest) true refs
  rw [isComma_rest h.drop hcomma] at hturn
  induction rest generalizing j it n refs with
  | nil =>
    simp only [List.head?_nil, Option.map_none, Option.getD_none, Bool.and_false,
      Bool.false_eq_true, if_false] at hturn
    rw [loop_done hturn]
    simp [commaItems]
  | cons s rest ih =>
    match s with
    | (.join lhs rhs, next) =>
      simp only [List.head?_cons, Option.map_some, Option.getD_some, Separator.isJoin,
        Bool.not_true, Bool.and_false, Bool.false_eq_true, if_false] at hturn
      rw [loop_done hturn]
      simp [commaItems, Separator.isJoin]
    | (.comma, next) =>
      have hnext : Sees b.toks (j + it.toks.length + 1)
          (next.toks ++ (rest.flatMap separatedToks ++ post)) := by
        have hview := h.drop
        rw [List.flatMap_cons, List.append_assoc] at hview
        exact hview.tail
      obtain ⟨m, rfl⟩ : ∃ m, n = m + 1 := ⟨n - 1, by simp at hn; omega⟩
      simp only [List.head?_cons, Option.map_some, Option.getD_some, Separator.isJoin,
        Bool.not_false, Bool.and_true, if_true] at hturn
      rw [loop_next hturn]
      have hturn' := relationTurn_item (hg _ hnext.nonneg hnext.lt) hnext (endsItem_rest hpost rest)
        true (refs ++ [it.ref g])
      rw [isComma_rest hnext.drop hcomma] at hturn'
      rw [ih hnext m (by simpa using hn) hturn']
      simp [commaItems, Separator.isJoin]

/-- What an item is made of. -/
theorem forall_item {P : Sym → Prop} (hname : ∀ n : Name, P n.sym) (hdot : P (.punct '.'))
    (has : P (.word "AS".toList)) (it : FromItem) : ∀ t ∈ it.toks, P t := by
  intro t ht
  rcases List.mem_cons.mp ht with rfl | ht
  · exact hname _
  · rcases List.mem_append.mp ht with ht | ht
    · obtain ⟨p, -, hp⟩ := List.mem_flatMap.mp ht
      simp only [List.mem_cons, List.not_mem_nil, or_false] at hp
      rcases hp with rfl | rfl
      · exact hdot
      · exact hname _
    · match halias : it.alias_ with
      | none => simp [aliasToks, halias] at ht
      | some (false, n) =>
        simp only [aliasToks, halias, List.mem_singleton] at ht
        exact ht ▸ hname n
      | some (true, n) =>
        simp only [aliasToks, halias, List.mem_cons, List.not_mem_nil, or_false] at ht
        rcases ht with rfl | rfl
        · exact has
        · exact hname n

theorem quiet_name (n : Name) : n.sym.isKwIn relationWords = false := n.isKwIn (by decide)

theorem quiet_item : ∀ t ∈ it.toks, t.isKwIn relationWords = false :=
  forall_item quiet_name (by decide) (by decide) it

/-- Behind the first item only the joined ones are added. -/
theorem refsOver_rest {g : ℤ} (hg : ∀ k, 0 ≤ k → k < b.size → b.groupOf k = some g)
    (h : Sees b.toks i (rest.flatMap separatedToks ++ post)) (refs : List RelationRef) :
    refsOver b i (rest.flatMap separatedToks) refs =
      some (refs ++ (joinItems rest).map fun x => x.ref g) := by
  induction rest generalizing i refs with
  | nil => simp [refsOver_nil, joinItems]
  | cons s rest ih =>
    rw [List.flatMap_cons, List.append_assoc] at h
    rw [List.flatMap_cons, refsOver_append]
    match s with
    | (.comma, next) =>
      have hquiet : ∀ t ∈ separatedToks (.comma, next), t.isKwIn relationWords = false :=
        List.forall_mem_cons.mpr ⟨rfl, quiet_item⟩
      rw [refsOver_quiet h hquiet, Option.bind_some, ih h.drop]
      simp [joinItems, Separator.isJoin]
    | (.join lhs rhs, next) =>
      have hat : at? b.toks i = some (.word "JOIN".toList) := h.at
      have hrel : isRelationKeyword b i = some true := by
        rw [isRelationKeyword, isKw_of_at hat, isKw_of_at hat, isKwIn_of_at hat,
          if_neg (by decide), if_neg (by decide)]
        decide
      have hquiet : ∀ t ∈ next.toks ++ [.word "ON".toList, lhs.sym, .op "=".toList, rhs.sym],
          t.isKwIn relationWords = false := by
        intro t ht
        rcases List.mem_append.mp ht with ht | ht
        · exact quiet_item t ht
        · simp only [List.mem_cons, List.not_mem_nil, or_false] at ht
          rcases ht with rfl | rfl | rfl | rfl
          · decide
          · exact quiet_name lhs
          · decide
          · exact quiet_name rhs
      have hitem : Sees b.toks (i + 1) ((next.toks ++ [.word "ON".toList, lhs.sym,
          .op "=".toList, rhs.sym]) ++ (rest.flatMap separatedToks ++ post)) := h.tail
      have hparse : parseRelationList b i refs = some (refs ++ [next.ref g]) := by
        have hview : Sees b.toks (i + 1) (next.toks ++ (.word "ON".toList :: lhs.sym ::
            .op "=".toList :: rhs.sym :: (rest.flatMap separatedToks ++ post))) := by
          rwa [List.append_assoc] at hitem
        have hturn := relationTurn_item (hg _ hview.nonneg hview.lt) hview (endsItem_on _) false refs
        have hlist : isKwIn b.toks i ["FROM", "USING"] = false := by
          rw [isKwIn_of_at hat]
          decide
        have hinto : isKw b.toks i "INTO" = false := by
          rw [isKw_of_at hat]
          decide
        rw [parseRelationList, hg i h.nonneg h.lt, Option.bind_eq_bind, Option.bind_some, hlist,
          hinto]
        exact loop_done hturn
      have hlast := ih h.drop (refs ++ [next.ref g])
      have hend : i + ((separatedToks (.join lhs rhs, next)).length : ℤ) =
          i + 1 + (next.toks ++ [.word "ON".toList, lhs.sym, .op "=".toList, rhs.sym]).length := by
        simp only [separatedToks, List.length_cons]
        push_cast
        ring
      rw [separatedToks, refsOver_cons, refTurn_list hat hrel (by decide), hparse, Option.bind_some,
        refsOver_quiet hitem hquiet, Option.bind_some]
      change refsOver b (i + ((separatedToks (.join lhs rhs, next)).length : ℤ)) _ _ = _
      rw [hlast]
      simp [joinItems, Separator.isJoin]

end Lists

section Seen

/-- The paths and aliases that `collectRefs` records. -/
def recorded (toks : List Sym) : Option (List (List Text × Text)) :=
  ((buildGroups toks).bind collectRefs).map (List.map fun r => (r.path, r.alias_))

/-- One reference for each item, in order. -/
def FromList.RefsSeen (q : FromList) : Prop :=
  recorded q.toks = some (q.items.map fun it => (it.path, it.aliasText))

/-- Behind a further comma a table is expected. -/
def FromList.CommaSeen (q : FromList) : Prop :=
  ∃ b, buildGroups (q.toks ++ [.punct ',']) = some b ∧
    (detectContext b b.size).map Context.kind = some .relation

def FromList.CommasFirst (q : FromList) : Prop :=
  q.rest.Pairwise fun s s' => s.1.isJoin = true → s'.1.isJoin = true

def FromList.NoJoin (q : FromList) : Prop := ∀ s ∈ q.rest, s.1.isJoin = false

theorem length_found {rest : List (Separator × FromItem)} :
    (commaItems rest).length + (joinItems rest).length = rest.length ↔
      rest.Pairwise fun s s' => s.1.isJoin = true → s'.1.isJoin = true := by
  induction rest with
  | nil => simp [commaItems, joinItems]
  | cons s rest ih =>
    cases hj : s.1.isJoin with
    | false =>
      have hcount : (commaItems (s :: rest)).length + (joinItems (s :: rest)).length =
          (commaItems rest).length + (joinItems rest).length + 1 := by
        simp [commaItems, joinItems, hj]
        omega
      rw [hcount, List.length_cons, Nat.add_right_cancel_iff, ih, List.pairwise_cons]
      simp [hj]
    | true =>
      have hcount : (commaItems (s :: rest)).length + (joinItems (s :: rest)).length =
          (rest.filter fun s => s.1.isJoin).length + 1 := by
        simp [commaItems, joinItems, hj]
      rw [hcount, List.length_cons, Nat.add_right_cancel_iff, List.length_filter_eq_length_iff,
        List.pairwise_cons]
      constructor
      · exact fun h => ⟨fun s' hs' _ => h s' hs', List.pairwise_of_forall_mem_list
          fun _ _ s' hs' _ => h s' hs'⟩
      · exact fun h s' hs' => h.1 s' hs' hj

theorem found_eq {rest : List (Separator × FromItem)}
    (h : rest.Pairwise fun s s' => s.1.isJoin = true → s'.1.isJoin = true) :
    commaItems rest ++ joinItems rest = rest.map Prod.snd := by
  induction rest with
  | nil => rfl
  | cons s rest ih =>
    obtain ⟨hs, hrest⟩ := List.pairwise_cons.mp h
    cases hj : s.1.isJoin with
    | false =>
      have := ih hrest
      simp [commaItems, joinItems, hj] at this ⊢
      exact this
    | true =>
      have hall : rest.filter (fun s => s.1.isJoin) = rest :=
        List.filter_eq_self.mpr fun s' hs' => hs s' hs' hj
      simp [commaItems, joinItems, hj, hall]

variable {b : Brackets} {q : FromList}

theorem forall_toks {P : Sym → Prop} (hname : ∀ n : Name, P n.sym) (hdot : P (.punct '.'))
    (hcomma : P (.punct ',')) (hop : ∀ t, P (.op t))
    (hword : ∀ w ∈ ["SELECT", "FROM", "AS", "JOIN", "ON"], P (.word w.toList)) :
    ∀ t ∈ q.toks, P t := by
  have hitem := forall_item hname hdot (hword "AS" (by simp))
  have hrest : ∀ s : Separator × FromItem, ∀ t ∈ separatedToks s, P t := by
    intro s t ht
    match s with
    | (.comma, it) =>
      rcases List.mem_cons.mp ht with rfl | ht
      · exact hcomma
      · exact hitem it t ht
    | (.join lhs rhs, it) =>
      simp only [separatedToks, List.mem_cons, List.mem_append, List.not_mem_nil, or_false] at ht
      rcases ht with rfl | ht | rfl | rfl | rfl | rfl
      · exact hword "JOIN" (by simp)
      · exact hitem it t ht
      · exact hword "ON" (by simp)
      · exact hname lhs
      · exact hop _
      · exact hname rhs
  intro t ht
  simp only [FromList.toks, List.mem_append, List.mem_cons, List.mem_flatMap] at ht
  rcases ht with rfl | rfl | rfl | ht | ⟨s, -, ht⟩
  · exact hword "SELECT" (by simp)
  · exact hop _
  · exact hword "FROM" (by simp)
  · exact hitem _ t ht
  · exact hrest s t ht

theorem flat_toks : ∀ t ∈ q.toks, t ≠ .punct '(' ∧ t ≠ .punct ')' :=
  forall_toks (fun n => ⟨n.ne_punct _, n.ne_punct _⟩) (by decide) (by decide) (by simp) (by simp)

theorem groupOf_flat {toks : List Sym} (hb : buildGroups toks = some b)
    (hflat : ∀ t ∈ toks, t ≠ .punct '(' ∧ t ≠ .punct ')') :
    ∀ k, 0 ≤ k → k < b.size → b.groupOf k = some 0 := by
  intro k h0 hk
  obtain ⟨k, rfl⟩ := Int.eq_ofNat_of_zero_le h0
  rw [Brackets.size, toks_of_buildGroups hb] at hk
  have hlt : k < toks.length := by omega
  have hsplit : toks = toks.take k ++ toks[k] :: toks.drop (k + 1) := by simp
  rw [hsplit] at hb
  have hgroup := groupOf_of_opened hb (hflat _ (List.getElem_mem hlt)).2
  have hbefore := opened_balanced [] (balanced_of_plain fun t ht =>
    hflat t (List.mem_of_mem_take (i := k) ht))
  rw [List.nil_append] at hbefore
  rw [hbefore, List.length_take, min_eq_left hlt.le] at hgroup
  exact hgroup

theorem collectRefs_list (hb : buildGroups q.toks = some b) : collectRefs b =
    some ((q.first :: (commaItems q.rest ++ joinItems q.rest)).map fun it => it.ref 0) := by
  have htoks := toks_of_buildGroups hb
  have hg := groupOf_flat hb flat_toks
  have hall : Sees b.toks 0 (.word "SELECT".toList :: .op "*".toList :: .word "FROM".toList ::
      (q.first.toks ++ q.rest.flatMap separatedToks)) := htoks ▸ sees_all q.toks
  have hstar : at? b.toks (0 + 1) = some (.op "*".toList) := hall.tail.at
  have hfrom : at? b.toks (0 + 1 + 1) = some (.word "FROM".toList) := hall.tail.tail.at
  have hitem : Sees b.toks (0 + 1 + 1 + 1) (q.first.toks ++ (q.rest.flatMap separatedToks ++ [])) := by
    simpa using hall.tail.tail.tail
  have hrel := isRelationKeyword_from hfrom (isKw_of_at hstar _)
    (hg _ (by omega) hall.tail.tail.lt)
    (by simp)
  have hparse : parseRelationList b (0 + 1 + 1) [] =
      some ((q.first :: commaItems q.rest).map fun it => it.ref 0) := by
    have hlist : isKwIn b.toks (0 + 1 + 1) ["FROM", "USING"] = true := by
      rw [isKwIn_of_at hfrom]
      decide
    have hinto : isKw b.toks (0 + 1 + 1) "INTO" = false := by
      rw [isKw_of_at hfrom]
      decide
    have hrest : q.rest.length < b.toks.length + 1 := by
      have h := hitem.length
      have hle := length_rest_le q.rest
      simp only [List.length_append] at h
      omega
    rw [parseRelationList, hg _ (by omega) hall.tail.tail.lt, Option.bind_eq_bind,
      Option.bind_some, hlist, hinto,
      relationTurn_list hg hitem (by simp [EndsItem]) (by simp) hrest]
    rfl
  have htail : refsOver b (0 + 1 + 1 + 1) (q.first.toks ++ q.rest.flatMap separatedToks)
      ((q.first :: commaItems q.rest).map fun it => it.ref 0) =
        some ((q.first :: (commaItems q.rest ++ joinItems q.rest)).map fun it => it.ref 0) := by
    rw [refsOver_append, refsOver_quiet hitem quiet_item, Option.bind_some,
      refsOver_rest hg hitem.drop]
    simp
  rw [collectRefs_eq, htoks]
  rw [FromList.toks, refsOver_cons, refTurn_quiet hall.at (by decide), Option.bind_some, refsOver_cons,
    refTurn_quiet hstar (by decide), Option.bind_some, refsOver_cons,
    refTurn_list hfrom hrel (by decide), hparse, Option.bind_some, htail]

theorem recorded_list (q : FromList) : recorded q.toks =
    some ((q.first :: (commaItems q.rest ++ joinItems q.rest)).map fun it =>
      (it.path, it.aliasText)) := by
  obtain ⟨b, hb, -⟩ := buildGroups_yields q.toks
  rw [recorded, hb, Option.bind_some, collectRefs_list hb, Option.map_some, List.map_map]
  rfl

theorem refsSeen_iff (q : FromList) : q.RefsSeen ↔ q.CommasFirst := by
  rw [FromList.RefsSeen, recorded_list, FromList.items, FromList.CommasFirst]
  constructor
  · intro h
    have hlen := congrArg (Option.map List.length) h
    rw [← length_found]
    simpa using hlen
  · intro h
    rw [found_eq h]

end Seen

section Slots

variable {b : Brackets} {start : ℤ} {t : Sym} {ts pre post : List Sym}

def contextWords : List String :=
  ["SELECT", "WHERE", "ON", "HAVING", "BY", "SET", "RETURNING", "VALUES", "OUTPUT", "QUALIFY",
    "WHEN", "THEN", "ELSE"]

/-- The walk back passes over the token. -/
def Sym.isPassive (t : Sym) : Bool :=
  t != .punct '(' && t != .punct ')' && !t.isKwIn relationWords && !t.isKwIn contextWords &&
    !t.isKwIn ["LIMIT", "OFFSET", "FETCH", "TOP"]

theorem contextBack_passive {k : ℕ} (hat : at? b.toks k = some t) (ht : t.isPassive = true) :
    contextBack b start (k + 1) 0 false = contextBack b start k 0 false := by
  simp only [Sym.isPassive, Bool.and_eq_true, bne_iff_ne, Bool.not_eq_true'] at ht
  obtain ⟨⟨⟨⟨hopen, hclose⟩, hrel⟩, hctx⟩, hlimit⟩ := ht
  have hkw : ∀ kw ∈ relationWords, t.isKw kw = false := fun kw hkw => by
    simpa using List.any_eq_false.mp hrel kw hkw
  have hno : isRelationKeyword b k = some false := by
    simp only [isRelationKeyword, isKw_of_at hat, isKwIn_of_at hat, Sym.isKwIn, List.any_cons,
      List.any_nil, hkw "FROM" (by decide), hkw "USING" (by decide), hkw "JOIN" (by decide),
      hkw "UPDATE" (by decide), hkw "INTO" (by decide), hkw "TABLE" (by decide),
      hkw "STRAIGHT_JOIN" (by decide), Bool.false_eq_true, if_false, Bool.or_false]
  have hword : wordContext b start k false = some none := by
    rw [contextWords] at hctx
    rw [wordContext, hno]
    simp only [Option.bind_eq_bind, Option.bind_some, Bool.false_eq_true, if_false,
      isKwIn_of_at hat, hctx, hlimit]
  rw [contextBack, isPunct_of_at hat, isPunct_of_at hat, hat]
  simp [hopen, hclose, hword]

theorem contextBack_stretch {post : List Sym} (h : b.toks = pre ++ ts ++ post)
    (hts : ∀ t ∈ ts, t.isPassive = true) :
    contextBack b start (pre ++ ts).length 0 false = contextBack b start pre.length 0 false := by
  induction ts using List.reverseRecOn generalizing post with
  | nil => rw [List.append_nil]
  | append_singleton ts t ih =>
    have hview : Sees b.toks (pre ++ ts).length (t :: post) := ⟨pre ++ ts, by rw [h]; simp, rfl⟩
    have hsplit : b.toks = pre ++ ts ++ t :: post := by
      rw [h]
      simp
    have hrest := ih hsplit fun u hu => hts u (List.mem_append_left _ hu)
    rw [← List.append_assoc, List.length_append, List.length_singleton,
      contextBack_passive hview.at (hts t (by simp)), hrest]

theorem contextBack_on {k : ℕ} (hat : at? b.toks k = some (.word "ON".toList)) :
    contextBack b start (k + 1) 0 false = some ⟨.column, []⟩ := by
  have hno : isRelationKeyword b k = some false := by
    rw [isRelationKeyword, isKw_of_at hat, isKw_of_at hat, isKwIn_of_at hat, if_neg (by decide),
      if_neg (by decide)]
    decide
  have hword : wordContext b start k false = some (some ⟨.column, []⟩) := by
    rw [wordContext, hno, isKwIn_of_at hat]
    rfl
  rw [contextBack, isPunct_of_at hat, isPunct_of_at hat, hat]
  simp [hword, Sym.isWord]

theorem passive_name (n : Name) : n.sym.isPassive = true := by
  have h1 := quiet_name n
  have h2 : n.sym.isKwIn contextWords = false := n.isKwIn (by decide)
  have h3 : n.sym.isKwIn ["LIMIT", "OFFSET", "FETCH", "TOP"] = false := n.isKwIn (by decide)
  simp [Sym.isPassive, h1, h2, h3, n.ne_punct]

theorem passive_item (it : FromItem) : ∀ t ∈ it.toks, t.isPassive = true :=
  forall_item passive_name (by decide) (by decide) it

/-- Back over the separators, up to the condition of the last join. -/
theorem contextBack_rest {rest : List (Separator × FromItem)}
    (h : b.toks = pre ++ rest.flatMap separatedToks ++ post) :
    contextBack b start (pre ++ rest.flatMap separatedToks).length 0 false =
      if rest.any (fun s => s.1.isJoin) then some ⟨.column, []⟩
      else contextBack b start pre.length 0 false := by
  induction rest using List.reverseRecOn generalizing post with
  | nil => simp
  | append_singleton rest s ih =>
    let before := pre ++ rest.flatMap separatedToks
    have hflat : (rest ++ [s]).flatMap separatedToks =
        rest.flatMap separatedToks ++ separatedToks s := by simp
    rw [hflat, ← List.append_assoc] at h ⊢
    match s with
    | (.comma, it) =>
      have hpassive : ∀ t ∈ separatedToks (.comma, it), t.isPassive = true :=
        List.forall_mem_cons.mpr ⟨by decide, passive_item it⟩
      rw [contextBack_stretch h hpassive, ih (by rw [h, List.append_assoc]), List.any_append]
      have hno : (Separator.comma, it).1.isJoin = false := rfl
      simp only [List.any_cons, List.any_nil, hno, Bool.or_false]
    | (.join lhs rhs, it) =>
      let upToOn := before ++ .word "JOIN".toList :: it.toks
      have hpassive : ∀ t ∈ [lhs.sym, .op "=".toList, rhs.sym], t.isPassive = true := by
        simp only [List.mem_cons, List.not_mem_nil, or_false, forall_eq_or_imp, forall_eq]
        exact ⟨passive_name lhs, by decide, passive_name rhs⟩
      have hsplit : before ++ separatedToks (.join lhs rhs, it) =
          (upToOn ++ [.word "ON".toList]) ++ [lhs.sym, .op "=".toList, rhs.sym] := by
        simp [separatedToks, upToOn]
      have hon : at? b.toks (upToOn.length : ℤ) = some (.word "ON".toList) := by
        have hview : Sees b.toks upToOn.length (.word "ON".toList ::
            ([lhs.sym, .op "=".toList, rhs.sym] ++ post)) :=
          ⟨upToOn, by rw [h]; simp [separatedToks, upToOn, before], rfl⟩
        exact hview.at
      change contextBack b start (before ++ separatedToks (.join lhs rhs, it)).length 0 false = _
      rw [hsplit] at h ⊢
      rw [contextBack_stretch h hpassive,
        List.length_append, List.length_singleton, contextBack_on hon]
      simp [Separator.isJoin]

/-- Behind a comma of a list the slot is empty. -/
theorem relationSlotEmpty_comma {kw : ℤ} (hkw : 0 ≤ kw) (hstart : kw < start - 1)
    (hcomma : isPunct b.toks (start - 1) ',' = true)
    (hopen : ∀ k, isPunct b.toks k '(' = false)
    (hlist : isKwIn b.toks kw ["FROM", "USING"] = true) :
    relationSlotEmpty b kw start = some true := by
  have hbound := bounds_of_isPunct hcomma
  have h : Yields (loop (slotTurn b true start) (b.toks.length + 1) (kw + 1, 0)) (· = true) :=
    loop_total (fun s => kw < s.1 ∧ s.1 ≤ start ∧ (s.1 = start → s.2 = 0)) (fun s => (start - s.1).toNat)
    (fun s hs => ?_) ⟨by simp, by simp only; omega, fun _ => rfl⟩
    (by simp only; omega)
  · obtain ⟨empty, hempty, rfl⟩ := h
    rw [relationSlotEmpty, hlist]
    exact hempty
  · obtain ⟨hlt, hle, hzero⟩ := hs
    unfold slotTurn
    rw [hopen]
    split_ifs with hbefore hno hsep hword
    · exact absurd hno (by simp)
    · exact .next ⟨by simp only; omega, by simp only; omega, fun _ => rfl⟩ (by simp only; omega)
    · have hne : s.1 ≠ start - 1 := fun he => hsep (by simp [he, hcomma])
      exact .next ⟨by simp only; omega, by simp only; omega, by simp only; omega⟩
        (by simp only; omega)
    · have hne : s.1 ≠ start - 1 := fun he => hsep (by simp [he, hcomma])
      exact .next ⟨by simp only; omega, by simp only; omega, by simp only; omega⟩
        (by simp only; omega)
    · exact .done (by simp [hzero (by omega)])

end Slots

section Commas

/-- Up to the first item. -/
def fromToks : List Sym := [.word "SELECT".toList, .op "*".toList, .word "FROM".toList]

theorem contextBack_from {b : Brackets} {start : ℤ} (hat : at? b.toks 2 = some (.word "FROM".toList))
    (hrel : isRelationKeyword b 2 = some true) (hslot : relationSlotEmpty b 2 start = some true) :
    contextBack b start 3 0 false = some ⟨.relation, []⟩ := by
  have hword : wordContext b start 2 false = some (some ⟨.relation, []⟩) := by
    obtain ⟨create, hcreate, -⟩ := isCreateTable_yields b.toks 2
    have htable : isKw b.toks 2 "TABLE" = false := by
      rw [isKw_of_at hat]
      decide
    rw [wordContext, hrel]
    simp [hcreate, htable, hslot]
  rw [contextBack]
  simp only [Nat.cast_ofNat]
  rw [isPunct_of_at hat, isPunct_of_at hat, hat]
  simp [hword, Sym.isWord]

theorem detectContext_comma {b : Brackets} {q : FromList}
    (hb : buildGroups (q.toks ++ [.punct ',']) = some b) : detectContext b b.size =
      some (if q.rest.any (fun s => s.1.isJoin) then ⟨.column, []⟩ else ⟨.relation, []⟩) := by
  have htoks := toks_of_buildGroups hb
  have hflat : ∀ t ∈ q.toks ++ [.punct ','], t ≠ .punct '(' ∧ t ≠ .punct ')' := by
    intro t ht
    rcases List.mem_append.mp ht with ht | ht
    · exact flat_toks t ht
    · rw [List.mem_singleton.mp ht]
      decide
  have hg := groupOf_flat hb hflat
  have hall : b.toks = (fromToks ++ q.first.toks) ++ q.rest.flatMap separatedToks ++ [.punct ','] := by
    rw [htoks, FromList.toks, fromToks]
    simp
  have hsize : b.size = (q.toks.length : ℤ) + 1 := by
    rw [Brackets.size, htoks]
    simp
  have hlast : at? b.toks (b.size - 1) = some (.punct ',') := by
    have hview : Sees b.toks q.toks.length [.punct ','] := ⟨q.toks, htoks, rfl⟩
    rw [hsize, add_sub_cancel_right]
    exact hview.at
  have hfrom : at? b.toks 2 = some (.word "FROM".toList) := by
    rw [hall]
    rfl
  have hstar : at? b.toks 1 = some (.op "*".toList) := by
    rw [hall]
    rfl
  have hbefore : q.toks = (fromToks ++ q.first.toks) ++ q.rest.flatMap separatedToks := by
    rw [FromList.toks, fromToks]
    simp
  have hthree : 3 < b.size := by
    have hfirst : 0 < q.first.toks.length := by simp [FromItem.toks]
    rw [hsize, hbefore, List.length_append, List.length_append, show fromToks.length = 3 from rfl]
    omega
  have hrel := isRelationKeyword_from hfrom (isKw_of_at hstar _) (hg 2 (by omega) (by omega))
    (by simp)
  have hopen : ∀ k, isPunct b.toks k '(' = false := by
    intro k
    rw [isPunct, decide_eq_false_iff_not]
    exact fun hk => (hflat _ (htoks ▸ (at?_bounds hk).2.2)).1 rfl
  have hslot : relationSlotEmpty b 2 b.size = some true := by
    refine relationSlotEmpty_comma (by omega) (by omega) ?_ hopen ?_
    · rw [isPunct_of_at hlast]
      rfl
    · rw [isKwIn_of_at hfrom]
      decide
  have hcomma : b.toks = q.toks ++ [.punct ','] ++ [] := by rw [htoks, List.append_nil]
  have hfirst : b.toks = fromToks ++ q.first.toks ++ (q.rest.flatMap separatedToks ++ [.punct ',']) := by
    rw [hall]
    simp
  have hnat : b.size.toNat = (q.toks ++ [Sym.punct ',']).length := by
    rw [Brackets.size, htoks, Int.toNat_natCast]
  rw [detectContext, isKw_of_at hlast, if_neg (by decide), hnat,
    contextBack_stretch hcomma (by decide), hbefore, contextBack_rest hall,
    contextBack_stretch hfirst (passive_item q.first)]
  have h3 := contextBack_from hfrom hrel hslot
  split_ifs
  · rfl
  · exact h3

theorem commaSeen_iff (q : FromList) : q.CommaSeen ↔ q.NoJoin := by
  obtain ⟨b, hb, -⟩ := buildGroups_yields (q.toks ++ [.punct ','])
  have hcontext := detectContext_comma hb
  have hseen : q.CommaSeen ↔ q.rest.any (fun s => s.1.isJoin) = false := by
    constructor
    · rintro ⟨b', hb', hkind⟩
      obtain rfl := Option.some_inj.mp (hb.symm.trans hb')
      by_contra hjoin
      rw [hcontext, if_pos (by simpa using hjoin)] at hkind
      cases hkind
    · intro hno
      refine ⟨b, hb, ?_⟩
      rw [hcontext, hno]
      rfl
  rw [hseen, List.any_eq_false]
  simp [FromList.NoJoin]

/-- Every item is recorded as long as no comma comes after a join; behind a further comma a table
is expected as long as there is no join at all. -/
theorem from_list_seen_iff (q : FromList) :
    (q.RefsSeen ↔ q.CommasFirst) ∧ (q.RefsSeen ∧ q.CommaSeen ↔ q.NoJoin) := by
  refine ⟨refsSeen_iff q, ?_⟩
  rw [refsSeen_iff, commaSeen_iff, and_iff_right_iff_imp]
  intro hno
  exact List.pairwise_of_forall_mem_list fun s hs s' _ hjoin => by simp [hno s hs] at hjoin

/-- A bare name. -/
def letterName (c : Char) (h : (Sym.word [c]).isPlain = true) : Name := ⟨.word [c], h⟩

theorem isPlain_a : (Sym.word ['a']).isPlain = true := by decide

theorem isPlain_b : (Sym.word ['b']).isPlain = true := by decide

theorem isPlain_c : (Sym.word ['c']).isPlain = true := by decide

/-- `SELECT * FROM a JOIN b ON a = b, c`. -/
def commaAfterJoin : FromList :=
  let a := letterName 'a' isPlain_a
  let b := letterName 'b' isPlain_b
  { first := { head := a }
    rest := [(.join a b, { head := b }), (.comma, { head := letterName 'c' isPlain_c })] }

/-- The table behind the comma is not recorded. -/
theorem comma_after_join_unseen : ¬(commaAfterJoin.RefsSeen ∧ commaAfterJoin.CommaSeen) := by
  have h : recorded commaAfterJoin.toks = some [([['a']], []), ([['b']], [])] := by decide
  rintro ⟨hseen, -⟩
  rw [FromList.RefsSeen, h] at hseen
  exact absurd hseen (by decide)

end Commas
end DearSql
