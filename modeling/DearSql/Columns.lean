import DearSql.Analyzer

/-! What the names of a statement stand for: catalog relations, references in scope, and the
columns of a table, a CTE or a derived table. -/
namespace DearSql
open Lexing Loops

section Catalog

inductive RoutineKind
  | Function | Procedure
  deriving DecidableEq, Repr

structure Routine where
  name : Text
  signature : Text := []
  kind : RoutineKind := .Function
  returnType : Text := []
  deriving DecidableEq, Repr

structure CatalogObject where
  schema : Text
  name : Text
  deriving DecidableEq, Repr

/-- What the completer may offer. The schema of an entry is the dotted path a user types before
its name. -/
structure CompletionCatalog where
  tables : List Table := []
  views : List Table := []
  sequences : List CatalogObject := []
  routines : List Routine := []
  schemas : List Text := []
  defaultSchema : Text := []
  deriving DecidableEq, Repr

end Catalog

section Lookup

/-- A catalog entry that a path leads to. -/
structure Relation where
  table : Table
  isView : Bool
  deriving DecidableEq, Repr

def CompletionCatalog.relations (catalog : CompletionCatalog) : List Relation :=
  catalog.tables.map (⟨·, false⟩) ++ catalog.views.map (⟨·, true⟩)

/-- The typed qualifier is a suffix of the path. -/
def qualifierMatches (schemaPath : Text) (qualifier : List Text) : Bool :=
  if qualifier = [] then true
  else
    let segs := splitPath schemaPath
    if segs.length < qualifier.length then false
    else ((segs.drop (segs.length - qualifier.length)).zip qualifier).all fun p => ieq p.1 p.2

/-- How near an entry is to what was typed. -/
def relationRank (catalog : CompletionCatalog) (name : Text) (t : Table) : ℤ :=
  (if t.name = name then 1 else 0) +
    (if ieq t.schema catalog.defaultSchema then 4 else if t.schema = [] then 2 else 0)

/-- One turn of the search for the best entry. -/
def consider (catalog : CompletionCatalog) (name : Text) (qual : List Text)
    (best : ℤ × Option Relation) (r : Relation) : ℤ × Option Relation :=
  if !ieq r.table.name name || !qualifierMatches r.table.schema qual then best
  else
    let rank := relationRank catalog name r.table
    if best.1 < rank then (rank, some r) else best

def findRelation (catalog : CompletionCatalog) (path : List Text) : Option Relation :=
  match path.getLast? with
  | none => none
  | some name =>
    (catalog.relations.foldl (consider catalog name path.dropLast) (-1, none)).2

end Lookup

structure ColInfo where
  name : Text
  type : Text := []
  column : Option Column := none
  deriving DecidableEq, Repr

def tableColumns (t : Table) : List ColInfo :=
  t.columns.map fun c => { name := c.name, type := c.type, column := some c }

def applyAliases : List ColInfo → List Text → List ColInfo
  | cols, [] => cols
  | [], a :: as => { name := a } :: applyAliases [] as
  | c :: cols, a :: as => { c with name := a, column := none } :: applyAliases cols as

/-- A statement with its groups, and what its CTEs and FROM items declare. -/
structure Analyzer extends Brackets where
  catalog : CompletionCatalog
  ctes : List Cte
  refs : List RelationRef

def analyze (catalog : CompletionCatalog) (toks : List Sym) : Option Analyzer := do
  let b ← buildGroups toks
  let ctes ← collectCtes b
  let refs ← collectRefs b
  some { b with catalog := catalog, ctes := ctes, refs := refs }

namespace Analyzer

variable (a : Analyzer)

section Names

def findCte (name : Text) : Option Cte := a.ctes.find? fun c => ieq c.name name

def nearerTurn (name : Text) (g : ℤ) (best : ℤ × Option RelationRef) (r : RelationRef) :
    Option (ℤ × Option RelationRef) :=
  if !ieq r.name name then some best
  else do
    let visible ← a.isAncestorOrSelf r.group g
    if !visible then some best
    else do
      let d ← a.depthOf r.group
      some (if best.1 < d then (d, some r) else best)

/-- The closest visible reference of that name from group `g`. -/
def findRef (name : Text) (g : ℤ) : Option (Option RelationRef) :=
  (a.refs.foldlM (a.nearerTurn name g) (-1, none)).map Prod.snd

def withDepth (g : ℤ) (r : RelationRef) : Option (Option (ℤ × RelationRef)) := do
  let visible ← a.isAncestorOrSelf r.group g
  if visible then (a.depthOf r.group).map fun d => some (d, r) else some none

/-- The references in scope, the nearest scope first. -/
def visibleRefs (g : ℤ) : Option (List RelationRef) := do
  let found ← a.refs.mapM (a.withDepth g)
  some (((found.filterMap id).insertionSort fun x y => y.1 ≤ x.1).map Prod.snd)

/-- The references declared directly in group `g`. -/
def visibleRefsIn (g : ℤ) : List RelationRef := a.refs.filter fun r => r.group = g

def findRefIn (name : Text) (g : ℤ) : Option (Option RelationRef) :=
  match a.refs.find? fun r => r.group = g ∧ ieq r.name name with
  | some r => some (some r)
  | none => a.findRef name g

end Names

section SelectList

def selectTurn (g stop k : ℤ) : Option (Turn ℤ ℤ) :=
  if k < stop then do
    let inner ← a.groupOf k
    if inner = g ∧ isKw a.toks k "SELECT" then some (.done k) else some (.next (k + 1))
  else some (.done k)

/-- One of `DISTINCT [ON (...)]`, `ALL`, `TOP n [PERCENT]`. -/
def modifierTurn (stop k : ℤ) : Option (Turn ℤ ℤ) :=
  if k < stop then
    if isKwIn a.toks k ["DISTINCT", "ALL"] then
      if isKw a.toks (k + 1) "ON" ∧ isPunct a.toks (k + 2) '(' then
        (a.closeOf (k + 2)).map fun close => .next (close + 1)
      else some (.next (k + 1))
    else if isKw a.toks k "TOP" then
      (a.past (k + 1)).map fun k => .next (skipKw a.toks "PERCENT" k)
    else some (.done k)
  else some (.done k)

/-- The token indices of the items so far, the last item apart. -/
def itemTurn (stop : ℤ) (s : ℤ × List ℤ × List (List ℤ)) :
    Option (Turn (ℤ × List ℤ × List (List ℤ)) (List (List ℤ))) :=
  let (k, item, items) := s
  if k < stop then
    if isKwIn a.toks k ["FROM", "INTO", "WHERE", "GROUP", "ORDER", "HAVING", "LIMIT", "UNION",
      "EXCEPT", "INTERSECT", "WINDOW", "FETCH", "OFFSET"] then some (.done (items ++ [item]))
    else if isPunct a.toks k ',' then some (.next (k + 1, [], items ++ [item]))
    else (a.past k).map fun next => .next (next, item ++ [k], items)
  else some (.done (items ++ [item]))

/-- `a`, `t.a`, `s.t.a`. -/
def isChain (toks : List Sym) : Bool → List ℤ → Bool
  | _, [] => true
  | wantIdent, k :: ks =>
    (if wantIdent then isIdent toks k else isPunct toks k '.') && isChain toks (!wantIdent) ks

variable (refCols : RelationRef → Option (List ColInfo))

/-- The first column of that name that says more than its name. -/
def columnInfo (info : ColInfo) : List RelationRef → Option ColInfo
  | [] => some info
  | r :: rs => do
    let cols ← refCols r
    let info :=
      match cols.find? fun c => ieq c.name info.name with
      | some c => { info with type := c.type, column := c.column }
      | none => info
    if info.type ≠ [] ∨ info.column.isSome then some info else columnInfo info rs

/-- `*` and `t.*`. -/
def starColumns (item : List ℤ) (g : ℤ) : Option (List ColInfo) :=
  let n : ℤ := item.length
  if n = 1 then ((a.visibleRefsIn g).mapM refCols).map List.flatten
  else if 3 ≤ n then do
    let dot ← at? item (n - 2)
    let owner ← at? item (n - 3)
    if isPunct a.toks dot '.' ∧ isIdent a.toks owner then do
      let name ← textAt a.toks owner
      match ← a.findRefIn name g with
      | some r => refCols r
      | none => some []
    else some []
  else some []

/-- The reference that qualifies the last name of a chain. -/
def chainOwner (item : List ℤ) (g : ℤ) : Option (Option RelationRef) :=
  let n : ℤ := item.length
  if 3 ≤ n then do
    let owner ← at? item (n - 3)
    let name ← textAt a.toks owner
    a.findRefIn name g
  else some none

/-- A column that an item names, qualified or not. -/
def chainColumn (item : List ℤ) (g : ℤ) (name : Text) : Option ColInfo := do
  let owner ← a.chainOwner item g
  let candidates :=
    match owner with
    | some r => [r]
    | none => if item.length = 1 then a.visibleRefsIn g else []
  columnInfo refCols { name := name } candidates

/-- The token before the last one of an item. -/
def tokenBefore (item : List ℤ) : Option (Option (ℤ × Sym)) :=
  let n : ℤ := item.length
  if 2 ≤ n then do
    let k ← at? item (n - 2)
    let tok ← at? a.toks k
    some (some (k, tok))
  else some none

/-- The column that one item of a select list gives its table. -/
def deriveItem (item : List ℤ) (g : ℤ) : Option (List ColInfo) :=
  if item = [] then some []
  else do
    let n : ℤ := item.length
    let last ← at? item (n - 1)
    let tok ← at? a.toks last
    if tok = .op ['*'] then a.starColumns refCols item g
    else if !isIdent a.toks last then some []
    else do
      let before ← a.tokenBefore item
      if before.any fun p => isKw a.toks p.1 "AS" then some [{ name := tok.text }]
      else if isChain a.toks true item ∧ n % 2 = 1 then
        (a.chainColumn refCols item g tok.text).map fun c => [c]
      else if before.isSome ∧ tok.isWord ∧ inSet notAliasWords tok.text then some []
      -- an implicit alias: an expression and a name
      else if before.any fun p => !isPunct a.toks p.1 '.' && !p.2.isOp then
        some [{ name := tok.text }]
      else some []

/-- The items of the select list of group `g`. -/
def selectItems (g : ℤ) : Option (List (List ℤ)) := do
  let group ← at? a.groups g
  let stop := min group.closeAt a.size
  let k ← loop (a.selectTurn g stop) (a.toks.length + 2) (group.openAt + 1)
  if stop ≤ k then some []
  else do
    let k ← loop (a.modifierTurn stop) (a.toks.length + 1) (k + 1)
    loop (a.itemTurn stop) (a.toks.length + 1) (k, [], [])

def selectColumns (refCols : RelationRef → ℕ → Option (List ColInfo)) (g : ℤ) (depth : ℕ) :
    Option (List ColInfo) :=
  if 6 < depth then some []
  else do
    let items ← a.selectItems g
    let cols ← items.mapM fun item => a.deriveItem (fun r => refCols r (depth + 1)) item g
    some cols.flatten

def cteColumns (refCols : RelationRef → ℕ → Option (List ColInfo)) (c : Cte) (depth : ℕ) :
    Option (List ColInfo) :=
  if 0 ≤ c.body then
    (a.selectColumns refCols c.body (depth + 1)).map fun cols => applyAliases cols c.columns
  else some (applyAliases [] c.columns)

def pathCte (path : List Text) : Option Cte :=
  match path with
  | [name] => a.findCte name
  | _ => none

def catalogColumns (path : List Text) : List ColInfo :=
  ((findRelation a.catalog path).map fun rel => tableColumns rel.table).getD []

/-- The columns of a reference before its alias list. -/
def sourceColumns (refCols : RelationRef → ℕ → Option (List ColInfo)) (r : RelationRef)
    (depth : ℕ) : Option (List ColInfo) :=
  if 0 ≤ r.derived then a.selectColumns refCols r.derived (depth + 1)
  -- columns only through an alias list
  else if r.function then some []
  else
    match a.pathCte r.path with
    | some c => a.cteColumns refCols c depth
    | none => some (a.catalogColumns r.path)

/-- One level of `refColumns` over the level below. -/
def columnsStep (refCols : RelationRef → ℕ → Option (List ColInfo)) (r : RelationRef)
    (depth : ℕ) : Option (List ColInfo) :=
  if 6 < depth then some []
  else (a.sourceColumns refCols r depth).map fun cols => applyAliases cols r.columnAliases

/-- `refColumns` with at most so many calls of itself inside each other. -/
def columnsWithin : ℕ → RelationRef → ℕ → Option (List ColInfo)
  | 0 => fun _ _ => none
  | n + 1 => a.columnsStep (columnsWithin n)

/-- The depth passes six after four calls. -/
def refColumns (r : RelationRef) : Option (List ColInfo) := a.columnsWithin 5 r 0

def cteColumnsAt (c : Cte) : Option (List ColInfo) := a.cteColumns (a.columnsWithin 5) c 0

end SelectList
end Analyzer
end DearSql
