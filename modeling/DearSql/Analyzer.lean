import DearSql.Loops
import DearSql.SqlWords

/-! The analyzer of the completion engine: the parenthesised groups of a statement, the names
its FROM items and CTEs declare, and the context of a position.

An access outside a list and a loop that does not end have no result. -/
namespace DearSql
open Lexing Loops

def ieq (a b : Text) : Bool := lower a = lower b

/-- What the analyzer reads of a token. -/
inductive Sym
  | word (text : Text)
  | quotedIdent (text : Text)
  | punct (c : Char)
  | op (text : Text)
  | literal
  deriving DecidableEq, Repr

def Sym.text : Sym → Text
  | .word t | .quotedIdent t | .op t => t
  | .punct c => [c]
  | .literal => []

def Sym.isWord : Sym → Bool
  | .word _ => true
  | _ => false

def Sym.isOp : Sym → Bool
  | .op _ => true
  | _ => false

def TokInfo.sym (t : TokInfo) : Sym :=
  match t.kind with
  | .word => .word t.text
  | .quotedIdent => .quotedIdent t.text
  | .punct => .punct (t.text.headD '\x00')
  | .op => .op t.text
  | .string | .number | .comment | .param => .literal

structure Group where
  parent : ℤ
  openAt : ℤ
  closeAt : ℤ
  deriving DecidableEq, Repr

/-- The tokens of a statement and its groups: where each group opens and closes, the group of
each token, and the group each opening parenthesis opens. -/
structure Brackets where
  toks : List Sym
  groups : List Group
  groupOf_ : List ℤ
  opens_ : List ℤ
  deriving DecidableEq, Repr

section Predicates

def textAt (toks : List Sym) (i : ℤ) : Option Text := (at? toks i).map Sym.text

def isPunct (toks : List Sym) (i : ℤ) (c : Char) : Bool := at? toks i = some (.punct c)

def isKw (toks : List Sym) (i : ℤ) (kw : String) : Bool :=
  match at? toks i with
  | some (.word t) => ieq t kw.toList
  | _ => false

def isKwIn (toks : List Sym) (i : ℤ) (kws : List String) : Bool := kws.any fun kw => isKw toks i kw

def isIdent (toks : List Sym) (i : ℤ) : Bool :=
  match at? toks i with
  | some (.word _) | some (.quotedIdent _) => true
  | _ => false

/-- An identifier that can name a relation. -/
def isNameIdent (toks : List Sym) (i : ℤ) : Bool :=
  match at? toks i with
  | some (.word t) => !inSet notAliasWords t
  | some (.quotedIdent _) => true
  | _ => false

def statementStartsWith (toks : List Sym) (kw : String) : Bool := isKw toks 0 kw

end Predicates

section Groups

/-- What the loop of `buildGroups` carries; the top of the stack comes first. -/
structure Building where
  groups : List Group
  groupOf_ : List ℤ
  opens_ : List ℤ
  stack : List ℤ
  deriving DecidableEq, Repr

def Building.mark (s : Building) (i : ℤ) : Option Building := do
  let top ← s.stack.head?
  let groupOf_ ← put? s.groupOf_ i top
  some { s with groupOf_ := groupOf_ }

def Building.push (s : Building) (i size : ℤ) : Option Building := do
  let s ← s.mark i
  let top ← s.stack.head?
  let g : ℤ := s.groups.length
  let opens_ ← put? s.opens_ i g
  some { s with groups := s.groups ++ [⟨top, i, size⟩], opens_ := opens_, stack := g :: s.stack }

def Building.pop (s : Building) (i : ℤ) : Option Building :=
  if 1 < s.stack.length then do
    let top ← s.stack.head?
    let group ← at? s.groups top
    let groups ← put? s.groups top { group with closeAt := i }
    some { s with groups := groups, stack := s.stack.tail }
  else some s

def groupTurn (toks : List Sym) (s : Building) (i : ℤ) : Option Building :=
  if isPunct toks i '(' then s.push i toks.length
  else if isPunct toks i ')' then (s.pop i).bind fun s => s.mark i
  else s.mark i

def buildGroups (toks : List Sym) : Option Brackets := do
  let s ← (upTo 0 toks.length).foldlM (groupTurn toks)
    { groups := [⟨-1, -1, toks.length⟩], groupOf_ := List.replicate toks.length 0
      opens_ := List.replicate toks.length (-1), stack := [0] }
  some { toks := toks, groups := s.groups, groupOf_ := s.groupOf_, opens_ := s.opens_ }

end Groups

namespace Brackets

variable (b : Brackets)

def size : ℤ := b.toks.length

def groupOf (i : ℤ) : Option ℤ := at? b.groupOf_ i

/-- Past the end where the group is not closed. -/
def closeOf (openIdx : ℤ) : Option ℤ := do
  let g ← at? b.opens_ openIdx
  if g < 0 then some openIdx
  else do
    let group ← at? b.groups g
    some group.closeAt

/-- The token after `k`, or after the group that opens at `k`. -/
def past (k : ℤ) : Option ℤ :=
  if isPunct b.toks k '(' then (b.closeOf k).map (· + 1) else some (k + 1)

def ancestorTurn (ancestor g : ℤ) : Option (Turn ℤ Bool) :=
  if 0 ≤ g then
    if g = ancestor then some (.done true)
    else (at? b.groups g).map fun group => .next group.parent
  else some (.done false)

def isAncestorOrSelf (ancestor g : ℤ) : Option Bool :=
  loop (b.ancestorTurn ancestor) (b.groups.length + 1) g

def depthTurn (s : ℤ × ℤ) : Option (Turn (ℤ × ℤ) ℤ) :=
  if 0 < s.1 then (at? b.groups s.1).map fun group => .next (group.parent, s.2 + 1)
  else some (.done s.2)

def depthOf (g : ℤ) : Option ℤ := loop b.depthTurn (b.groups.length + 1) (g, 0)

def stackTurn (stack : List ℤ) (i : ℤ) : Option (List ℤ) :=
  if isPunct b.toks i '(' then (at? b.opens_ i).map (· :: stack)
  else if isPunct b.toks i ')' && 1 < stack.length then some stack.tail
  else some stack

/-- The group that the insertion point before a token sits in. -/
def groupAt (index : ℤ) : Option ℤ := do
  let stack ← (upTo 0 (min index b.size)).foldlM b.stackTurn [0]
  stack.head?

def identsInGroup (openIdx : ℤ) : Option (List Text) := do
  let g ← at? b.opens_ openIdx
  if g < 0 then some []
  else do
    let close ← b.closeOf openIdx
    let found ← (upTo (openIdx + 1) close).mapM fun k => do
      let inner ← b.groupOf k
      if inner = g ∧ isIdent b.toks k then (textAt b.toks k).map some else some none
    some (found.filterMap id)

end Brackets

section Ctes

structure Cte where
  name : Text
  columns : List Text := []
  body : ℤ := -1
  deriving DecidableEq, Repr

/-- The column list that may follow a name at `j`, and where it ends. -/
def columnList (b : Brackets) (j : ℤ) : Option (List Text × ℤ) :=
  if isPunct b.toks j '(' then do
    let columns ← b.identsInGroup j
    let close ← b.closeOf j
    some (columns, close + 1)
  else some ([], j)

def skipKw (toks : List Sym) (kw : String) (j : ℤ) : ℤ := if isKw toks j kw then j + 1 else j

/-- One `name (columns) AS (body)` of a WITH list. -/
def cteTurn (b : Brackets) (s : ℤ × List Cte) : Option (Turn (ℤ × List Cte) (List Cte)) :=
  if isIdent b.toks s.1 then do
    let name ← textAt b.toks s.1
    let (columns, j) ← columnList b (s.1 + 1)
    if !isKw b.toks j "AS" then some (.done s.2)
    else
      let j := skipKw b.toks "MATERIALIZED" (skipKw b.toks "NOT" (j + 1))
      if !isPunct b.toks j '(' then some (.done s.2)
      else do
        let body ← at? b.opens_ j
        let close ← b.closeOf j
        let ctes := s.2 ++ [{ name := name, columns := columns, body := body }]
        if isPunct b.toks (close + 1) ',' then some (.next (close + 2, ctes)) else some (.done ctes)
  else some (.done s.2)

def collectCtes (b : Brackets) : Option (List Cte) :=
  (upTo 0 b.size).foldlM (fun ctes i =>
    if isKw b.toks i "WITH" then
      loop (cteTurn b) (b.toks.length + 1) (skipKw b.toks "RECURSIVE" (i + 1), ctes)
    else some ctes) []

end Ctes

section Keywords

/-- FROM that introduces relations (not `EXTRACT(x FROM y)`, `IS DISTINCT FROM`). -/
def isTableFrom (b : Brackets) (i : ℤ) : Option Bool :=
  if isKw b.toks (i - 1) "DISTINCT" then some false
  else do
    let g ← b.groupOf i
    if 0 < g then do
      let group ← at? b.groups g
      some (!isKwIn b.toks (group.openAt - 1)
        ["EXTRACT", "SUBSTRING", "SUBSTR", "TRIM", "OVERLAY", "POSITION"])
    else some true

def isRelationKeyword (b : Brackets) (i : ℤ) : Option Bool :=
  if isKw b.toks i "FROM" then isTableFrom b i
  else if isKw b.toks i "USING" then some (!isPunct b.toks (i + 1) '(')
  else some (isKwIn b.toks i ["JOIN", "UPDATE", "INTO", "TABLE", "STRAIGHT_JOIN"])

def createTurn (toks : List Sym) (j : ℤ) : Option (Turn ℤ Bool) :=
  if isKwIn toks j ["TEMP", "TEMPORARY", "UNLOGGED", "GLOBAL", "LOCAL", "VIRTUAL", "EXTERNAL",
    "REPLACE", "OR"] then some (.next (j - 1))
  else some (.done (isKw toks j "CREATE"))

/-- TABLE right after `CREATE [OR REPLACE] [TEMP...]`: a new name. -/
def isCreateTable (toks : List Sym) (i : ℤ) : Option Bool :=
  loop (createTurn toks) (i.toNat + 1) (i - 1)

end Keywords

section References

structure RelationRef where
  /-- The alias, else the last part of the path. -/
  name : Text := []
  alias_ : Text := []
  /-- Empty for derived tables. -/
  path : List Text := []
  group : ℤ := 0
  derived : ℤ := -1
  function : Bool := false
  columnAliases : List Text := []
  deriving DecidableEq, Repr

def pathTurn (toks : List Sym) (s : ℤ × List Text) :
    Option (Turn (ℤ × List Text) (ℤ × List Text)) :=
  if isPunct toks s.1 '.' ∧ isIdent toks (s.1 + 1) then
    (textAt toks (s.1 + 1)).map fun t => .next (s.1 + 2, s.2 ++ [t])
  else some (.done s)

/-- A derived table, a table function or a path at `j`, and where it ends. -/
def relationHead (b : Brackets) (into : Bool) (g j : ℤ) : Option (Option (RelationRef × ℤ)) :=
  if isPunct b.toks j '(' then do
    let derived ← at? b.opens_ j
    let close ← b.closeOf j
    some (some ({ group := g, derived := derived }, close + 1))
  else if isNameIdent b.toks j then do
    let name ← textAt b.toks j
    let (j, path) ← loop (pathTurn b.toks) (b.toks.length + 1) (j + 1, [name])
    if !into && isPunct b.toks j '(' then do
      let close ← b.closeOf j
      some (some ({ group := g, path := path, function := true }, close + 1))
    else some (some ({ group := g, path := path }, j))
  else some none

def aliasAt (toks : List Sym) (into : Bool) (j : ℤ) : Option (Text × ℤ) :=
  if isKw toks j "AS" then
    if isIdent toks (j + 1) then (textAt toks (j + 1)).map fun t => (t, j + 2)
    else some ([], j + 1)
  else if !into && isNameIdent toks j then (textAt toks j).map fun t => (t, j + 1)
  else some ([], j)

def aliasColumns (b : Brackets) (r : RelationRef) (alias_ : Text) (j : ℤ) :
    Option (List Text × ℤ) :=
  if alias_ ≠ [] ∧ (0 ≤ r.derived ∨ r.function) then columnList b j else some ([], j)

/-- The alias and the column list that follow a FROM item. -/
def relationTail (b : Brackets) (into : Bool) (r : RelationRef) (j : ℤ) :
    Option (RelationRef × ℤ) := do
  let (alias_, j) ← aliasAt b.toks into j
  let (columnAliases, j) ← aliasColumns b r alias_ j
  let name := if alias_ ≠ [] then alias_ else r.path.getLastD []
  some ({ r with name := name, alias_ := alias_, columnAliases := columnAliases }, j)

def itemWords : List String := ["LATERAL", "ONLY", "IF", "NOT", "EXISTS"]

def skipTurn (toks : List Sym) (j : ℤ) : Option (Turn ℤ ℤ) :=
  if isKwIn toks j itemWords then some (.next (j + 1)) else some (.done j)

/-- One item of the list after the keyword `kw`. -/
def relationTurn (b : Brackets) (list into : Bool) (g : ℤ) (s : ℤ × List RelationRef) :
    Option (Turn (ℤ × List RelationRef) (List RelationRef)) :=
  if s.1 < b.size then do
    let inner ← b.groupOf s.1
    if inner ≠ g then some (.done s.2)
    else do
      let j ← loop (skipTurn b.toks) (b.toks.length + 1) s.1
      match ← relationHead b into g j with
      | none => some (.done s.2)
      | some (r, j) => do
        let (r, j) ← relationTail b into r j
        let refs := if r.name ≠ [] then s.2 ++ [r] else s.2
        if list && isPunct b.toks j ',' then some (.next (j + 1, refs)) else some (.done refs)
  else some (.done s.2)

def parseRelationList (b : Brackets) (kw : ℤ) (refs : List RelationRef) :
    Option (List RelationRef) := do
  let g ← b.groupOf kw
  loop (relationTurn b (isKwIn b.toks kw ["FROM", "USING"]) (isKw b.toks kw "INTO") g)
    (b.toks.length + 1) (kw + 1, refs)

def refTurn (b : Brackets) (refs : List RelationRef) (i : ℤ) : Option (List RelationRef) := do
  let tok ← at? b.toks i
  if !tok.isWord then some refs
  else do
    let relation ← isRelationKeyword b i
    let create ← isCreateTable b.toks i
    if !relation || (isKw b.toks i "TABLE" && create) then some refs
    else parseRelationList b i refs

def collectRefs (b : Brackets) : Option (List RelationRef) :=
  (upTo 0 b.size).foldlM (refTurn b) []

end References

section Context

inductive Ctx
  /-- Naming something new. -/
  | none
  | statementStart
  | keyword
  /-- A table or view name slot. -/
  | relation
  /-- After a complete FROM item. -/
  | afterRelation
  /-- An expression. -/
  | column
  /-- `INSERT INTO t (…`, `CREATE INDEX … ON t (…`. -/
  | targetColumns
  deriving DecidableEq, Repr

structure Context where
  kind : Ctx := .keyword
  target : List Text := []
  deriving DecidableEq, Repr

def qualifierTurn (toks : List Sym) (s : ℤ × List Text × ℤ) :
    Option (Turn (ℤ × List Text × ℤ) (List Text × ℤ)) :=
  if isPunct toks s.1 '.' ∧ isIdent toks (s.1 - 1) then
    (textAt toks (s.1 - 1)).map fun t => .next (s.1 - 2, t :: s.2.1, s.1 - 1)
  else some (.done s.2)

/-- The path that ends right before token `i` (`a.b.`), and where it starts. -/
def qualifierBefore (toks : List Sym) (i : ℤ) : Option (List Text × ℤ) :=
  loop (qualifierTurn toks) (i.toNat + 1) (i - 1, [], i)

def slotTurn (b : Brackets) (list : Bool) (start : ℤ) (s : ℤ × ℕ) : Option (Turn (ℤ × ℕ) Bool) :=
  if s.1 < start then
    if isPunct b.toks s.1 '(' then (b.closeOf s.1).map fun close => .next (close + 1, s.2 + 1)
    else if list && isPunct b.toks s.1 ',' then some (.next (s.1 + 1, 0))
    else if isKwIn b.toks s.1 itemWords then some (.next (s.1 + 1, s.2))
    else some (.next (s.1 + 1, s.2 + 1))
  else some (.done (s.2 = 0))

/-- Nothing but the start of a name between the relation keyword `kw` and `start`. -/
def relationSlotEmpty (b : Brackets) (kw start : ℤ) : Option Bool :=
  loop (slotTurn b (isKwIn b.toks kw ["FROM", "USING"]) start) (b.toks.length + 1) (kw + 1, 0)

/-- The path that ends right before the parenthesis `k`, and where it starts. -/
def pathBefore (toks : List Sym) (k : ℤ) : Option (List Text × ℤ) :=
  if isIdent toks (k - 1) then do
    let (path, chainStart) ← qualifierBefore toks (k - 1)
    let name ← textAt toks (k - 1)
    some (path ++ [name], if chainStart = k then k - 1 else chainStart)
  else some ([], k)

/-- What the first parenthesis around the position says of it. -/
def openContext (b : Brackets) (k : ℤ) : Option (Option Context) := do
  let (path, chainStart) ← pathBefore b.toks k
  if path ≠ [] ∧ isKw b.toks (chainStart - 1) "INTO" then some (some ⟨.targetColumns, path⟩)
  else if path ≠ [] ∧ isKw b.toks (chainStart - 1) "ON" ∧ statementStartsWith b.toks "CREATE" then
    some (some ⟨.targetColumns, path⟩)
  else if isKw b.toks (k - 1) "USING" then some (some ⟨.column, []⟩)
  else some none

/-- What the word at `k` says of the position. -/
def wordContext (b : Brackets) (start k : ℤ) (crossed : Bool) : Option (Option Context) := do
  if ← isRelationKeyword b k then
    let create ← isCreateTable b.toks k
    if isKw b.toks k "TABLE" && create then some (some ⟨.none, []⟩)
    else if crossed then some (some ⟨.keyword, []⟩)
    else do
      let slot ← relationSlotEmpty b k start
      some (some ⟨if slot then .relation else .afterRelation, []⟩)
  else if isKwIn b.toks k ["SELECT", "WHERE", "ON", "HAVING", "BY", "SET", "RETURNING", "VALUES",
    "OUTPUT", "QUALIFY", "WHEN", "THEN", "ELSE"] then some (some ⟨.column, []⟩)
  else if isKwIn b.toks k ["LIMIT", "OFFSET", "FETCH", "TOP"] then some (some ⟨.keyword, []⟩)
  else some none

/-- The walk of `detectContext` over the first tokens, from the last of them back. -/
def contextBack (b : Brackets) (start : ℤ) : ℕ → ℕ → Bool → Option Context
  | 0, _, crossed =>
    some ⟨if crossed then .keyword else if start = 0 then .statementStart else .keyword, []⟩
  | k + 1, depth, crossed =>
    if isPunct b.toks k ')' then contextBack b start k (depth + 1) crossed
    else if isPunct b.toks k '(' then
      if 0 < depth then contextBack b start k (depth - 1) crossed
      else if crossed then contextBack b start k depth crossed
      else (openContext b k).bind fun found =>
        match found with
        | some context => some context
        | none => contextBack b start k depth true
    else if 0 < depth then contextBack b start k depth crossed
    else (at? b.toks k).bind fun tok =>
      if !tok.isWord then contextBack b start k depth crossed
      else (wordContext b start k crossed).bind fun found =>
        match found with
        | some context => some context
        | none => contextBack b start k depth crossed

def isCast (b : Brackets) (g : ℤ) : Option Bool :=
  if 0 < g then do
    let group ← at? b.groups g
    some (isKwIn b.toks (group.openAt - 1) ["CAST", "TRY_CAST"])
  else some false

def detectContext (b : Brackets) (start : ℤ) : Option Context :=
  if isKw b.toks (start - 1) "AS" then do
    let g ← b.groupOf (start - 1)
    let cast ← isCast b g
    if cast then some ⟨.keyword, []⟩
    else if statementStartsWith b.toks "CREATE" || statementStartsWith b.toks "ALTER" then
      some ⟨.keyword, []⟩
    else some ⟨.none, []⟩
  else contextBack b start start.toNat 0 false

end Context
end DearSql
