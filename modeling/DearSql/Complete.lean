import DearSql.Emission

/-! Completion at a position of a text, and what the identifier at a position stands for. -/
namespace DearSql
open Lexing Loops

/-- The tokens of the statement around an offset, without comments. -/
def statementTokens (all : List Token) (offset length : ℕ) : List Token :=
  let span := statementAt all offset length
  ((all.take span.lastTok).drop span.firstTok).filter fun t => t.kind.kind ≠ .comment

def syms (toks : List Token) : List Sym := toks.map fun t => t.kind.sym

namespace Analyzer

variable (a : Analyzer)

def pathRef (path : List Text) (g : ℤ) : Option (Option RelationRef) :=
  match path with
  | [name] => a.findRef name g
  | _ => some none

section Completion

variable (e : Emitter)

/-- The columns of what a qualifier names: a reference, a CTE or a catalog relation. -/
def qualifiedColumns (qualifier : List Text) (group : ℤ) : Option (List ColInfo) := do
  match ← a.pathRef qualifier group with
  | some r => a.refColumns r
  | none =>
    match a.pathCte qualifier with
    | some c => a.cteColumnsAt c
    | none => some (a.catalogColumns qualifier)

def memberColumns (qualifier : List Text) (group : ℤ) (kind : Ctx) : Option (List ColInfo) :=
  if kind ≠ .relation ∧ kind ≠ .afterRelation then a.qualifiedColumns qualifier group else some []

/-- The members of `alias.`, `table.` or `schema.`. -/
def memberOffers (qualifier : List Text) (group : ℤ) (kind : Ctx) : Option (List Offer) := do
  let cols ← a.memberColumns qualifier group kind
  some (addColumns e cols (qualifier.getLastD []) 900 ++
    addSchemaMembers e a.catalog qualifier 700 (kind ≠ .relation))

def relationOffers : List Offer :=
  (a.ctes.map fun c =>
    { label := c.name, kind := .table, detail := "cte".toList, insert := e.name c.name
      bonus := 950 }) ++
  addRelations e a.catalog 900 880 ++ addSchemas e a.catalog 700 ++
  if e.prefix_ = [] then []
  else ((sqlKeywords e.type).filter relationKeywords.contains).map fun kw =>
    { label := kw, kind := .keyword, insert := e.keyword kw, bonus := 300, fuzzy := false }

def targetCte (target : List Text) : Option (List ColInfo) :=
  match a.pathCte target with
  | some c => a.cteColumnsAt c
  | none => some []

def targetOffers (target : List Text) : Option (List Offer) := do
  let cols ← a.targetCte target
  let cols := if cols = [] then a.catalogColumns target else cols
  some (addColumns e cols (target.getLastD []) 900)

def refDetail (r : RelationRef) : Text :=
  if 0 ≤ r.derived then "subquery".toList
  else if (a.pathCte r.path).isSome then "cte".toList
  else joinPath r.path

/-- The columns of a reference, and its name. -/
def refOffers (r : RelationRef) : Option (List Offer) := do
  let cols ← a.refColumns r
  some (addColumns e cols r.name 900 ++
    [{ label := r.name, kind := .alias_, detail := a.refDetail r, insert := e.name r.name
       bonus := 750 }])

def columnOffers (group : ℤ) : Option (List Offer) := do
  let refs ← a.visibleRefs group
  let named ← (firstOfName RelationRef.name [] refs).mapM (a.refOffers e)
  some (named.flatten ++ addFunctions e a.catalog 600 ++ addKeywords e [] 450 0 ++
    (if refs = [] then addRelations e a.catalog 300 280 else []) ++
    (if e.type = .ORACLE then
      a.catalog.sequences.map fun s =>
        { label := s.name, kind := .sequence, detail := "sequence".toList, owner := s.schema
          insert := e.name s.name, bonus := 200 }
    else []))

/-- What there is to offer at the token `cur`. -/
def offers (cur : ℤ) : Option (List Offer) := do
  let (qualifier, chainStart) ← qualifierBefore a.toks cur
  let group ← a.groupAt cur
  let ctx ← detectContext a.toBrackets chainStart
  if qualifier ≠ [] then a.memberOffers e qualifier group ctx.kind
  else
    match ctx.kind with
    | .none => some []
    | .statementStart => some (addKeywords e statementKeywords 500 300)
    | .keyword => some (addKeywords e [] 500 0)
    | .afterRelation => some (addKeywords e clauseKeywords 400 400)
    | .relation => some (a.relationOffers e)
    | .targetColumns => a.targetOffers e ctx.target
    | .column => a.columnOffers e group

end Completion
end Analyzer

section Complete

structure CompletionResult where
  items : List CompletionItem := []
  replaceStart : ℕ := 0
  replaceEnd : ℕ := 0
  deriving DecidableEq, Repr

/-- The cursor is in a token in which nothing is completed. -/
def barsCursor (cursor : ℕ) (t : Token) : Bool :=
  match t.kind.kind with
  | .comment =>
    if t.kind.lineComment then cursor ≤ t.stop else cursor < t.stop || !t.kind.closed
  | .string => cursor < t.stop || !t.kind.closed
  | .number | .param => cursor ≤ t.stop
  | _ => false

/-- Inside a string, comment, number or parameter. -/
def insideLiteral (cursor : ℕ) : List Token → Bool
  | [] => false
  | t :: ts =>
    if cursor ≤ t.start then false
    else if barsCursor cursor t then true
    else insideLiteral cursor ts

/-- The identifier being typed, and the token index the completion sits at. -/
structure Typed where
  cur : ℕ
  quoted : Bool := false
  prefix_ : Text := []
  replaceStart : ℕ
  replaceEnd : ℕ
  deriving DecidableEq, Repr

def Typed.emitter (typed : Typed) (type : DatabaseType) : Emitter :=
  ⟨typed.prefix_, typed.quoted, type⟩

/-- The loop of `complete` over the statement's tokens, from token `i` on. -/
def typedFrom (sql : Text) (cursor : ℕ) : ℕ → List Token → Typed
  | i, [] => { cur := i, replaceStart := cursor, replaceEnd := cursor }
  | i, t :: ts =>
    if cursor ≤ t.start then { cur := i, replaceStart := cursor, replaceEnd := cursor }
    else if t.kind.kind = .word ∧ cursor ≤ t.stop then
      { cur := i, prefix_ := slice sql t.start cursor
        replaceStart := t.start, replaceEnd := t.stop }
    else if t.kind.kind = .quotedIdent ∧ (cursor < t.stop ∨ t.kind.closed = false) then
      { cur := i, quoted := true, prefix_ := slice sql (t.start + 1) cursor
        replaceStart := t.start, replaceEnd := t.stop }
    else typedFrom sql cursor (i + 1) ts

/-- The identifier typed at the cursor, and what there is to offer. -/
def offersAt (sql : Text) (cursor : ℕ) (catalog : CompletionCatalog) (type : DatabaseType) :
    Option (Typed × List Offer) :=
  let nothing : Typed := { cur := 0, replaceStart := cursor, replaceEnd := cursor }
  if !isSqlDialect type then some (nothing, [])
  else do
    let all := tokenize sql (dialectFor type)
    let toks := statementTokens all cursor sql.length
    let a ← analyze catalog (syms toks)
    if insideLiteral cursor all then some (nothing, [])
    else do
      let typed := typedFrom sql cursor 0 toks
      let offers ← a.offers (typed.emitter type) typed.cur
      some (typed, offers)

def complete (sql : Text) (cursor : ℕ) (catalog : CompletionCatalog) (type : DatabaseType) :
    Option CompletionResult := do
  let (typed, offers) ← offersAt sql (min cursor sql.length) catalog type
  let items ← (typed.emitter type).take offers
  some ⟨items, typed.replaceStart, typed.replaceEnd⟩

end Complete

section Resolve

structure ResolvedIdentifier where
  kind : CompletionKind := .table
  schema : Text := []
  relation : Text := []
  column : Text := []
  alias_ : Text := []
  table : Option Table := none
  columnInfo : Option Column := none
  start : ℕ := 0
  stop : ℕ := 0
  deriving DecidableEq, Repr

namespace ResolvedIdentifier

def setRelation (out : ResolvedIdentifier) (rel : Relation) : ResolvedIdentifier :=
  { out with
    kind := if rel.isView then .view else .table
    table := some rel.table
    relation := rel.table.name
    schema := rel.table.schema }

def setColumn (out : ResolvedIdentifier) (c : ColInfo) : ResolvedIdentifier :=
  { out with kind := .column, column := c.name, columnInfo := c.column }

end ResolvedIdentifier

def columnIn (cols : List ColInfo) (col : Text) : Option ColInfo :=
  cols.find? fun c => ieq c.name col

/-- Tries one after the other. -/
def firstFound : List (Option (Option ResolvedIdentifier)) → Option (Option ResolvedIdentifier)
  | [] => some none
  | try_ :: rest => do
    match ← try_ with
    | some out => some (some out)
    | none => firstFound rest

namespace Analyzer

variable (a : Analyzer) (out : ResolvedIdentifier)

/-- The relation, and its catalog table when there is one, that a reference points to. -/
def describeRef (r : RelationRef) : ResolvedIdentifier :=
  let out := { out with alias_ := r.alias_ }
  let other : ResolvedIdentifier :=
    { out with kind := .alias_, relation := if r.path = [] then r.name else r.path.getLastD [] }
  if r.derived < 0 ∧ !r.function ∧ (a.pathCte r.path).isNone then
    match findRelation a.catalog r.path with
    | some rel => out.setRelation rel
    | none => other
  else other

/-- A column of the catalog relation that a path leads to. -/
def relationColumn (path : List Text) (name : Text) : Option ResolvedIdentifier := do
  let rel ← findRelation a.catalog path
  let c ← columnIn (tableColumns rel.table) name
  some ((out.setRelation rel).setColumn c)

section Qualified

variable (qualifier : List Text) (name : Text)

def refMember (group : ℤ) : Option (Option ResolvedIdentifier) := do
  match ← a.pathRef qualifier group with
  | none => some none
  | some r => do
    let cols ← a.refColumns r
    some ((columnIn cols name).map (a.describeRef out r).setColumn)

def cteMember : Option (Option ResolvedIdentifier) :=
  match a.pathCte qualifier with
  | none => some none
  | some c => do
    let cols ← a.cteColumnsAt c
    some ((columnIn cols name).map { out with relation := c.name }.setColumn)

def schemaMember : Option ResolvedIdentifier :=
  (findRelation a.catalog (qualifier ++ [name])).map out.setRelation

def sequenceMember : Option ResolvedIdentifier :=
  (a.catalog.sequences.find? fun s => ieq s.name name && qualifierMatches s.schema qualifier).map
    fun s => { out with kind := .sequence, relation := s.name, schema := s.schema }

/-- `qualifier.name`: a column of an alias or table, or a relation in a schema. -/
def resolveMember (group : ℤ) : Option (Option ResolvedIdentifier) :=
  firstFound [a.refMember out qualifier name group, a.cteMember out qualifier name,
    some (a.relationColumn out qualifier name), some (a.schemaMember out qualifier name),
    some (a.sequenceMember out qualifier name)]

end Qualified

section Bare

variable (name : Text)

def asRef (group : ℤ) : Option (Option ResolvedIdentifier) := do
  let r ← a.findRef name group
  some (r.map (a.describeRef out))

def asCte : Option ResolvedIdentifier :=
  (a.findCte name).map fun c => { out with kind := .alias_, relation := c.name }

def asRelation : Option ResolvedIdentifier := (findRelation a.catalog [name]).map out.setRelation

def asSchema : Option ResolvedIdentifier :=
  ((allSchemas a.catalog).find? fun s => (splitPath s).any fun seg => ieq seg name).map fun s =>
    { out with kind := .schema, schema := s }

/-- The first reference in scope with a column of that name. -/
def columnOfRefs : List RelationRef → Option (Option ResolvedIdentifier)
  | [] => some none
  | r :: rs => do
    let cols ← a.refColumns r
    match columnIn cols name with
    | some c => some (some ((a.describeRef out r).setColumn c))
    | none => columnOfRefs rs

def asColumn (group : ℤ) (ctx : Context) : Option (Option ResolvedIdentifier) :=
  if ctx.kind = .targetColumns then some (a.relationColumn out ctx.target name)
  else do
    let refs ← a.visibleRefs group
    a.columnOfRefs out name refs

/-- A bare name: what it can be depends on where it sits. -/
def resolveBare (group : ℤ) (isQualifier : Bool) (ctx : Context) :
    Option (Option ResolvedIdentifier) :=
  let ref := a.asRef out name group
  let cte := some (a.asCte out name)
  let relation := some (a.asRelation out name)
  let schema := some (a.asSchema out name)
  if isQualifier ∧ ctx.kind = .relation then firstFound [cte, schema, relation]
  else if isQualifier then firstFound [ref, cte, relation, schema]
  else if ctx.kind = .relation then firstFound [cte, relation, schema]
  else if ctx.kind = .afterRelation then firstFound [ref, relation, cte]
  else firstFound [a.asColumn out name group ctx, ref, cte, relation, schema]

end Bare

/-- What the identifier token `at_` stands for. -/
def resolveName (at_ : ℤ) : Option (Option ResolvedIdentifier) := do
  let name ← textAt a.toks at_
  let (qualifier, _) ← qualifierBefore a.toks at_
  let group ← a.groupOf at_
  if qualifier ≠ [] then a.resolveMember out qualifier name group
  else do
    let ctx ← detectContext a.toBrackets at_
    a.resolveBare out name group (isPunct a.toks (at_ + 1) '.') ctx

end Analyzer

/-- The loop of `resolveIdentifierAt` over the statement's tokens, from token `i` on; `at_` is
the identifier that ends at the offset, if one does. -/
def identifierFrom (offset : ℕ) : ℕ → Option (ℕ × Token) → List Token → Option (ℕ × Token)
  | _, at_, [] => at_
  | i, at_, t :: ts =>
    if t.kind.kind ≠ .word ∧ t.kind.kind ≠ .quotedIdent then identifierFrom offset (i + 1) at_ ts
    else if t.start ≤ offset ∧ offset < t.stop then some (i, t)
    else identifierFrom offset (i + 1) (if offset = t.stop then some (i, t) else at_) ts

def resolveIdentifierAt (sql : Text) (offset : ℕ) (catalog : CompletionCatalog)
    (type : DatabaseType) : Option (Option ResolvedIdentifier) :=
  let offset := min offset sql.length
  if !isSqlDialect type then some none
  else do
    let toks := statementTokens (tokenize sql (dialectFor type)) offset sql.length
    let a ← analyze catalog (syms toks)
    match identifierFrom offset 0 none toks with
    | none => some none
    | some (at_, t) => a.resolveName { start := t.start, stop := t.stop } at_

end Resolve
end DearSql
