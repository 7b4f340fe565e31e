import DearSql.Columns

/-! How completion items are matched against the typed prefix, scored, sorted and made unique,
and the items that each kind of position asks for. -/
namespace DearSql
open Lexing Loops

section Matching

def istartsWith (s p : Text) : Bool := p.length ≤ s.length && ieq (s.take p.length) p

def ifind (s p : Text) (start : ℕ) : Option ℕ :=
  if p = [] then some start
  else ((List.range (s.length + 1 - p.length)).drop start).find? fun i => ieq (slice s i (i + p.length)) p

def isSubsequence : Text → Text → Bool
  | _, [] => true
  | [], _ :: _ => false
  | c :: s, d :: p => if c.toLower = d.toLower then isSubsequence s p else isSubsequence s (d :: p)

/-- A byte as a `char` compares: signed. -/
def charCode (c : Char) : ℤ :=
  if 0x80 ≤ c.toNat ∧ c.toNat < 0x100 then c.toNat - 0x100 else c.toNat

def iless : Text → Text → Bool
  | _, [] => false
  | [], _ :: _ => true
  | a :: as, b :: bs =>
    if charCode a.toLower < charCode b.toLower then true
    else if charCode b.toLower < charCode a.toLower then false
    else iless as bs

/-- One occurrence of the prefix inside the label: whether it starts a part of it. -/
def boundaryTurn (label pre : Text) (found : Option ℕ) : Option (Turn (Option ℕ) Bool) :=
  match found with
  | none => some (.done false)
  | some pos => do
    let before ← at? label (pos - 1)
    let here ← at? label pos
    if before = '_' ∨ before = '.' ∨ before = ' ' ∨ (isupper here ∧ islower before) then
      some (.done true)
    else some (.next (ifind label pre (pos + 1)))

/-- Keywords and functions stop at word boundaries: `fuzzy` is for the other names. -/
def fuzzyTier (label pre : Text) (fuzzy : Bool) : ℤ :=
  if !fuzzy then -1
  else if 2 ≤ pre.length ∧ (ifind label pre 0).isSome then 2000
  else if 2 ≤ pre.length ∧ isSubsequence label pre then 1000
  else -1

/-- How well a label matches the typed prefix; negative where it does not. -/
def matchTier (label pre : Text) (fuzzy : Bool) : Option ℤ :=
  if pre = [] then some 4000
  else if pre.isPrefixOf label then some 4150
  else if istartsWith label pre then some 4000
  else
    (loop (boundaryTurn label pre) (label.length + 2) (ifind label pre 0)).map fun boundary =>
      if boundary then 3000 else fuzzyTier label pre fuzzy

end Matching

inductive CompletionKind
  | keyword | function | table | view | column | schema | sequence | alias_
  deriving DecidableEq, Repr

def CompletionKind.code : CompletionKind → ℕ
  | .keyword => 0
  | .function => 1
  | .table => 2
  | .view => 3
  | .column => 4
  | .schema => 5
  | .sequence => 6
  | .alias_ => 7

structure CompletionItem where
  label : Text
  kind : CompletionKind
  detail : Text := []
  owner : Text := []
  insertText : Text := []
  score : ℤ := 0
  deriving DecidableEq, Repr

/-- The arguments of one call of `Emitter::add`. -/
structure Offer where
  label : Text
  kind : CompletionKind
  detail : Text := []
  owner : Text := []
  insert : Text
  bonus : ℤ
  fuzzy : Bool := true
  deriving DecidableEq, Repr

section Sorting

def itemLess (a b : CompletionItem) : Bool :=
  if a.score ≠ b.score then b.score < a.score
  else if !ieq a.label b.label then iless a.label b.label
  else if a.kind ≠ b.kind then a.kind.code < b.kind.code
  else iless a.owner b.owner

def itemKey (it : CompletionItem) : Text :=
  itoa it.kind.code ++ '\x1f' :: it.label ++ '\x1f' :: it.insertText ++ '\x1f' :: it.owner

/-- The first item of each key. -/
def firstOfKey : List Text → List CompletionItem → List CompletionItem
  | _, [] => []
  | seen, it :: items =>
    if seen.contains (itemKey it) then firstOfKey seen items
    else it :: firstOfKey (itemKey it :: seen) items

end Sorting

namespace Emitter

variable (e : Emitter)

/-- Keywords follow the case the user types in. -/
def keyword (kw : Text) : Text :=
  if e.prefix_.any isupper then kw else if e.prefix_.any isalpha then lower kw else kw

def add (o : Offer) : Option (Option CompletionItem) :=
  if e.quoted ∧ (o.kind = .keyword ∨ o.kind = .function) then some none
  else do
    let tier ← matchTier o.label e.prefix_ o.fuzzy
    if tier < 0 then some none
    else if e.prefix_ ≠ [] ∧ ieq o.label e.prefix_ ∧ !e.quoted then some none
    else some (some ⟨o.label, o.kind, o.detail, o.owner, o.insert, tier + o.bonus⟩)

def items (offers : List Offer) : Option (List CompletionItem) :=
  (offers.mapM e.add).map (·.filterMap id)

def take (offers : List Offer) : Option (List CompletionItem) :=
  (e.items offers).map fun items => firstOfKey [] (items.insertionSort fun a b => !itemLess b a)

end Emitter

section Schemas

/-- Drop the leading segments shared with the default, but for the last segment. -/
def dropShared : List Text → List Text → List Text
  | seg :: seg' :: segs, d :: ds =>
    if ieq seg d then dropShared (seg' :: segs) ds else seg :: seg' :: segs
  | segs, _ => segs

def joinPath (segs : List Text) : Text :=
  segs.foldl (fun out seg => if out ≠ [] then out ++ '.' :: seg else seg) []

/-- The schema path as typed relative to the default. -/
def relativeSchema (schema default_ : Text) : Text :=
  joinPath (dropShared (splitPath schema) (splitPath default_))

/-- Of schemas that differ in case only, the first one listed stays. -/
def allSchemas (catalog : CompletionCatalog) : List Text :=
  let out := catalog.schemas ++ catalog.tables.map (·.schema) ++ catalog.views.map (·.schema) ++
    catalog.sequences.map (·.schema)
  ((out.filter (· ≠ [])).insertionSort fun a b => !iless b a).destutter fun a b => !ieq a b

/-- The first of each group of texts that differ in case only. -/
def firstOfName {α : Type} (name : α → Text) : List Text → List α → List α
  | _, [] => []
  | seen, x :: xs =>
    if seen.contains (lower (name x)) then firstOfName name seen xs
    else x :: firstOfName name (lower (name x) :: seen) xs

end Schemas

section Offers

variable (e : Emitter) (catalog : CompletionCatalog)

def addKeywords (boosted : List Text) (base boost : ℤ) : List Offer :=
  (sqlKeywords e.type).map fun kw =>
    { label := kw, kind := .keyword, insert := e.keyword kw
      bonus := if boosted.contains kw then base + boost else base, fuzzy := false }

def routineDetail (r : Routine) : Text :=
  (if r.signature = [] then r.name else r.signature) ++
    (if r.returnType = [] then [] else " -> ".toList ++ r.returnType)

def addFunctions (base : ℤ) : List Offer :=
  ((sqlFunctions e.type).map fun fn =>
    { label := fn, kind := .function, detail := "function".toList, insert := e.keyword fn
      bonus := base, fuzzy := false }) ++
  (catalog.routines.filter fun r => r.kind = .Function).map fun r =>
    { label := r.name, kind := .function, detail := routineDetail r, insert := e.name r.name
      bonus := base + 20 }

def isLocal (t : Table) : Bool := t.schema = [] || ieq t.schema catalog.defaultSchema

/-- The schema that goes before the name of an entry. -/
def insertedSchema (t : Table) : Text :=
  if isLocal catalog t then [] else relativeSchema t.schema catalog.defaultSchema

def addRelation (kind : CompletionKind) (bonus : ℤ) (t : Table) : Offer :=
  { label := t.name, kind := kind
    detail := if kind = .view then "view".toList else "table".toList
    owner := t.schema, insert := e.path (insertedSchema catalog t) t.name
    bonus := if isLocal catalog t then bonus else bonus - 40 }

def addRelations (tableBonus viewBonus : ℤ) : List Offer :=
  catalog.tables.map (addRelation e catalog .table tableBonus) ++
    catalog.views.map (addRelation e catalog .view viewBonus)

/-- The first segment of each schema, as typed from the default's level. -/
def addSchemas (bonus : ℤ) : List Offer :=
  (firstOfName id [] ((allSchemas catalog).filterMap fun s =>
      (splitPath (relativeSchema s catalog.defaultSchema)).head?)).map fun seg =>
    { label := seg, kind := .schema, detail := "schema".toList, insert := e.name seg
      bonus := bonus }

/-- The segment that follows the qualifier in a schema path. -/
def nextSegment (qualifier : List Text) (s : Text) : Option (Text × Text) :=
  let segs := splitPath s
  if segs.length ≤ qualifier.length then none
  else if (segs.zip qualifier).all fun p => ieq p.1 p.2 then
    (segs[qualifier.length]?).map fun next => (next, s)
  else none

/-- The members of `qualifier.`: relations in it and schemas below it. -/
def addSchemaMembers (qualifier : List Text) (bonus : ℤ) (withSequences : Bool) : List Offer :=
  ((catalog.tables.filter fun t => qualifierMatches t.schema qualifier).map fun t =>
    { label := t.name, kind := .table, detail := "table".toList, owner := t.schema
      insert := e.name t.name, bonus := bonus }) ++
  ((catalog.views.filter fun t => qualifierMatches t.schema qualifier).map fun t =>
    { label := t.name, kind := .view, detail := "view".toList, owner := t.schema
      insert := e.name t.name, bonus := bonus - 10 }) ++
  (if withSequences then
    (catalog.sequences.filter fun s => qualifierMatches s.schema qualifier).map fun s =>
      { label := s.name, kind := .sequence, detail := "sequence".toList, owner := s.schema
        insert := e.name s.name, bonus := bonus - 30 }
  else []) ++
  (firstOfName Prod.fst [] ((allSchemas catalog).filterMap (nextSegment qualifier))).map fun p =>
    { label := p.1, kind := .schema, detail := "schema".toList, owner := p.2
      insert := e.name p.1, bonus := bonus - 20 }

def addColumns (cols : List ColInfo) (owner : Text) (bonus : ℤ) : List Offer :=
  cols.map fun c =>
    { label := c.name, kind := .column, detail := c.type, owner := owner, insert := e.name c.name
      bonus := bonus }

end Offers
end DearSql
