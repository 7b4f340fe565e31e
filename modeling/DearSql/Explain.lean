import DearSql.QueryResult
import DearSql.SqlBuilder

/-! `parsePlan`: query plans of PostgreSQL (JSON), MySQL (a tree as text) and SQLite (rows).
Doubles are of any type with their arithmetic; the JSON library and the conversions between
doubles and texts are given. -/
namespace DearSql.Explain

/-- A value of `nlohmann::json`. -/
inductive Json (D : Type) where
  | null
  | boolean (b : Bool)
  | number (float : Bool) (value : D)
  | string (s : Text)
  | array (items : List (Json D))
  | object (fields : List (Text × Json D))

structure PlanNode (D : Type) where
  operation : Text
  detail : Text := []
  estimatedRows : Option D := none
  cost : Option D := none
  actualRows : Option D := none
  loops : Option D := none
  totalTimeMs : Option D := none
  selfTimeMs : Option D := none
  properties : List (Text × Text) := []
  children : List (PlanNode D) := []

structure Plan (D : Type) where
  root : PlanNode D
  analyzed : Bool := false
  planningTimeMs : Option D := none
  executionTimeMs : Option D := none
  raw : Text

/-- What the library calls throw: `json::value` on another type than an object, on a value of
another type, and `std::stod` on a text without a number or one out of range. -/
inductive Thrown
  | type_error_306
  | type_error_302
  | invalid_argument
  | out_of_range
  deriving DecidableEq

/-- `parse` is `json::parse` without exceptions; `toDouble` has no value where a number is
out of range. -/
structure Lib (D : Type) where
  parse : Text → Option (Json D)
  dump : Json D → Text
  dumpIndented : Json D → Text
  showDouble : D → Text
  toDouble : ℚ → Option D

def firstColumn (r : StatementResult) : Text :=
  r.tableData.foldl
    (fun out row => match row with
      | [] => out
      | cell :: _ => (if out = [] then out else out ++ ['\n']) ++ cell) []

variable {D : Type} [Zero D] [One D] [Add D] [Sub D] [Mul D] [Max D] (lib : Lib D)

section SelfTimes

def childTotal (children : List (PlanNode D)) : D :=
  children.foldl (fun total child => total + child.totalTimeMs.getD 0) 0

mutual

/-- `fillSelfTimes`, children first. -/
def fillSelfTimes : PlanNode D → PlanNode D
  | ⟨operation, detail, estimatedRows, cost, actualRows, loops, total, self, properties, children⟩ =>
    let filled := fillAll children
    ⟨operation, detail, estimatedRows, cost, actualRows, loops, total,
      match total with
      | some t => some (max 0 (t - childTotal filled))
      | none => self,
      properties, filled⟩

def fillAll : List (PlanNode D) → List (PlanNode D)
  | [] => []
  | child :: rest => fillSelfTimes child :: fillAll rest

end

end SelfTimes

section Postgres

mutual

def scalarText : Json D → Text
  | .string s => s
  | .array items => scalarItems items []
  | .number true d => lib.showDouble d
  | v => lib.dump v

def scalarItems : List (Json D) → Text → Text
  | [], out => out
  | item :: items, out =>
    scalarItems items ((if out = [] then out else out ++ ", ".toList) ++ scalarText item)

end

def Json.find (j : Json D) (key : Text) : Option (Json D) :=
  match j with
  | .object fields => (fields.find? fun f => f.1 = key).map Prod.snd
  | _ => none

/-- `j.value(key, text)`. -/
def valueText (j : Json D) (key default : Text) : Except Thrown Text :=
  match j with
  | .object _ =>
    match j.find key with
    | none => .ok default
    | some (.string s) => .ok s
    | some _ => .error .type_error_302
  | _ => .error .type_error_306

/-- `j.value(key, false)`. -/
def valueBool (j : Json D) (key : Text) : Except Thrown Bool :=
  match j with
  | .object _ =>
    match j.find key with
    | none => .ok false
    | some (.boolean b) => .ok b
    | some _ => .error .type_error_302
  | _ => .error .type_error_306

def number (j : Json D) (key : Text) : Option D :=
  match j.find key with
  | some (.number _ d) => some d
  | _ => none

/-- The operation with the join type before the word `Join`, or after all. -/
def joined (op joinType : Text) : Text :=
  if joinType = [] || joinType = "Inner".toList then op
  else match find " Join".toList op with
    | none => op ++ ' ' :: joinType ++ " Join".toList
    | some pos => op.take pos ++ ' ' :: joinType ++ op.drop pos

def operationOf (j : Json D) : Except Thrown Text := do
  let op ← valueText j "Node Type".toList "?".toList
  let joinType ← valueText j "Join Type".toList []
  let op := joined op joinType
  let op ← if op = "Aggregate".toList then do
      let strategy ← valueText j "Strategy".toList []
      pure (if strategy = "Hashed".toList then "HashAggregate".toList
        else if strategy = "Sorted".toList then "GroupAggregate".toList else op)
    else pure op
  let parallelAware ← valueBool j "Parallel Aware".toList
  return if parallelAware then "Parallel ".toList ++ op else op

def detailOf (j : Json D) : Except Thrown Text := do
  let rel ← valueText j "Relation Name".toList []
  let detail ← if rel ≠ [] then do
      let aliasName ← valueText j "Alias".toList []
      pure ("on ".toList ++ rel ++
        if aliasName ≠ [] && aliasName ≠ rel then ' ' :: aliasName else [])
    else do
      let cte ← valueText j "CTE Name".toList []
      if cte ≠ [] then pure ("on ".toList ++ cte)
      else do
        let fn ← valueText j "Function Name".toList []
        pure (if fn ≠ [] then "on ".toList ++ fn ++ "()".toList else [])
  let index ← valueText j "Index Name".toList []
  return if index ≠ [] then
      detail ++ (if detail = [] then "using ".toList else " using ".toList) ++ index
    else detail

def shown : List Text :=
  ["Node Type", "Join Type", "Strategy", "Parallel Aware", "Relation Name", "Alias", "CTE Name",
    "Function Name", "Index Name", "Plan Rows", "Total Cost", "Actual Rows", "Actual Total Time",
    "Actual Loops", "Plans", "Startup Cost", "Actual Startup Time", "Async Capable"].map
    String.toList

def propertiesOf : Json D → List (Text × Text)
  | .object fields =>
    (fields.filter fun f => !shown.contains f.1).map fun f => (f.1, scalarText lib f.2)
  | _ => []

/-- The node without its children. -/
def ownNode (j : Json D) (parallel : Bool) : Except Thrown (PlanNode D) := do
  let operation ← operationOf j
  let detail ← detailOf j
  let loops := number j "Actual Loops".toList
  return {
    operation, detail, loops
    estimatedRows := number j "Plan Rows".toList
    cost := number j "Total Cost".toList
    actualRows := number j "Actual Rows".toList
    totalTimeMs := (number j "Actual Total Time".toList).map fun perLoop =>
      if parallel then perLoop else perLoop * loops.getD 1
    properties := propertiesOf lib j }

/-- Whether the children of `j` run in parallel workers. -/
def gathers (j : Json D) (parallel : Bool) : Except Thrown Bool :=
  if parallel then .ok true
  else (valueText j "Node Type".toList []).map "Gather".toList.isPrefixOf

mutual

def postgresNode : Json D → Bool → Except Thrown (PlanNode D)
  | .object fields, parallel => do
    let node ← ownNode lib (.object fields) parallel
    let below ← gathers (.object fields) parallel
    return { node with children := ← plansOf fields below }
  | j, parallel => ownNode lib j parallel

/-- The nodes of the array under `Plans`. -/
def plansOf : List (Text × Json D) → Bool → Except Thrown (List (PlanNode D))
  | [], _ => .ok []
  | (key, v) :: fields, below =>
    if key = "Plans".toList then
      match v with
      | .array items => postgresNodes items below
      | _ => .ok []
    else plansOf fields below

def postgresNodes : List (Json D) → Bool → Except Thrown (List (PlanNode D))
  | [], _ => .ok []
  | child :: rest, below => do
    let node ← postgresNode child below
    return node :: (← postgresNodes rest below)

end

/-- The object with the plan: the document, or the first element of its array. -/
def topOf : Json D → Option (Json D)
  | .array (.object fields :: _) => some (.object fields)
  | .object fields => some (.object fields)
  | _ => none

def parsePostgres (r : StatementResult) (analyzed : Bool) : Except Thrown (Option (Plan D)) :=
  match lib.parse (firstColumn r) with
  | none => .ok none
  | some doc =>
    match topOf doc with
    | none => .ok none
    | some top =>
      match top.find "Plan".toList with
      | none => .ok none
      | some plan => do
        let root ← postgresNode lib plan false
        return some {
          root, analyzed
          planningTimeMs := number top "Planning Time".toList
          executionTimeMs := number top "Execution Time".toList
          raw := lib.dumpIndented doc }

end Postgres

section Regex

/-- The parts of the patterns: a text, `([0-9.e+-]+)`, and `(?:\.\.([0-9.e+-]+))?`. -/
inductive Piece
  | lit (t : Text)
  | num
  | dotsNum

def inClass (c : Char) : Bool := isdigit c || c = '.' || c = 'e' || c = '+' || c = '-'

/-- The lengths a greedy repetition tries, the longest first. -/
def greedy (s : Text) : List ℕ := (List.range (s.takeWhile inClass).length).reverse.map (· + 1)

/-- A match at the front of a text: the groups, and the text after it. -/
def matchHere : List Piece → Text → Option (List (Option Text) × Text)
  | [], s => some ([], s)
  | .lit t :: ps, s => if t.isPrefixOf s then matchHere ps (s.drop t.length) else none
  | .num :: ps, s => (greedy s).findSome? fun n =>
      (matchHere ps (s.drop n)).map fun r => (some (s.take n) :: r.1, r.2)
  | .dotsNum :: ps, s =>
    let dots := if "..".toList.isPrefixOf s then
        (greedy (s.drop 2)).findSome? fun n =>
          (matchHere ps (s.drop (2 + n))).map fun r => (some ((s.drop 2).take n) :: r.1, r.2)
      else none
    dots.or ((matchHere ps s).map fun r => (none :: r.1, r.2))

/-- `std::regex_search`: the groups of the first match. -/
def regex_search (ps : List Piece) : Text → Option (List (Option Text))
  | [] => (matchHere ps []).map Prod.fst
  | c :: cs =>
    match matchHere ps (c :: cs) with
    | some r => some r.1
    | none => regex_search ps cs

/-- `std::regex_replace` by the empty text; `skip` characters belong to the last match. -/
def regex_remove (ps : List Piece) : ℕ → Text → Text
  | _, [] => []
  | skip + 1, _ :: cs => regex_remove ps skip cs
  | 0, c :: cs =>
    match matchHere ps (c :: cs) with
    | some r => regex_remove ps (cs.length - r.2.length) cs
    | none => c :: regex_remove ps 0 cs

def costRe : List Piece :=
  [.lit "(cost=".toList, .num, .dotsNum, .lit " rows=".toList, .num, .lit ")".toList]

def actualRe : List Piece :=
  [.lit "(actual time=".toList, .num, .lit "..".toList, .num, .lit " rows=".toList, .num,
    .lit " loops=".toList, .num, .lit ")".toList]

def neverRe : List Piece := [.lit "(never executed)".toList]

/-- `m[i]`, which may not have taken part in the match. -/
def group (m : List (Option Text)) (i : ℕ) : Option Text := (m[i - 1]?).join

end Regex

section MySQL

def digitsValue (ds : Text) : ℕ := Nat.ofDigitChars 10 ds 0

/-- An exponent at the front of a text: `e`, a sign, digits. -/
def exponent : Text → ℤ
  | 'e' :: '-' :: s => -(digitsValue (s.takeWhile isdigit) : ℤ)
  | 'e' :: '+' :: s => digitsValue (s.takeWhile isdigit)
  | 'e' :: s => digitsValue (s.takeWhile isdigit)
  | _ => 0

/-- The decimal number at the front of a text, as `strtod` reads it. -/
def decimal (s : Text) : Option ℚ :=
  let unsigned := match s with
    | '-' :: t => t
    | '+' :: t => t
    | t => t
  let int := unsigned.takeWhile isdigit
  let rest := unsigned.drop int.length
  let frac := match rest with
    | '.' :: t => t.takeWhile isdigit
    | _ => []
  let rest := match rest with
    | '.' :: t => t.drop frac.length
    | t => t
  if int = [] && frac = [] then none
  else
    let magnitude := (digitsValue (int ++ frac) : ℚ) * (10 : ℚ) ^ (exponent rest - frac.length)
    some (if s.head? = some '-' then -magnitude else magnitude)

def stod (s : Text) : Except Thrown D :=
  match decimal s with
  | none => .error .invalid_argument
  | some q =>
    match lib.toDouble q with
    | none => .error .out_of_range
    | some d => .ok d

/-- `std::getline` until it fails. -/
def getlines (text : Text) : List Text :=
  let lines := text.splitOn '\n'
  if lines.getLast? = some [] then lines.dropLast else lines

def costOf (text : Text) : Except Thrown (Option D × Option D) :=
  match regex_search costRe text with
  | none => .ok (none, none)
  | some m => do
    let cost ← stod lib (((group m 2).or (group m 1)).getD [])
    let rows ← stod lib ((group m 3).getD [])
    return (some cost, some rows)

/-- Rows, loops and total time. -/
def actualOf (text : Text) : Except Thrown (Option D × Option D × Option D) :=
  match regex_search actualRe text with
  | some m => do
    let rows ← stod lib ((group m 3).getD [])
    let loops ← stod lib ((group m 4).getD [])
    let time ← stod lib ((group m 2).getD [])
    return (some rows, some loops, some (time * loops))
  | none =>
    if (regex_search neverRe text).isSome then .ok (some 0, some 0, some 0)
    else .ok (none, none, none)

def mysqlNode (text : Text) : Except Thrown (PlanNode D) := do
  let (cost, estimatedRows) ← costOf lib text
  let (actualRows, loops, totalTimeMs) ← actualOf lib text
  let plain := regex_remove neverRe 0 (regex_remove actualRe 0 (regex_remove costRe 0 text))
  return {
    operation := (plain.reverse.dropWhile (· = ' ')).reverse
    cost, estimatedRows, actualRows, loops, totalTimeMs }

/-- A line without an arrow continues the node above it. -/
def continueLast (flat : List (ℕ × PlanNode D)) (line : Text) : List (ℕ × PlanNode D) :=
  let rest := line.dropWhile (· = ' ')
  match flat.getLast? with
  | some (depth, node) =>
    if rest = [] then flat
    else flat.dropLast ++ [(depth, { node with operation := node.operation ++ ' ' :: rest })]
  | none => flat

def mysqlLine (flat : List (ℕ × PlanNode D)) (line : Text) :
    Except Thrown (List (ℕ × PlanNode D)) :=
  match find "-> ".toList line with
  | none => .ok (continueLast flat line)
  | some arrow => do
    let node ← mysqlNode lib (line.drop (arrow + 3))
    return flat ++ [(arrow, node)]

/-- Nodes that are not deeper than `depth` leave the stack, each to the one below it. -/
def popTo (depth : ℕ) : List (ℕ × PlanNode D) → PlanNode D → List (ℕ × PlanNode D) × PlanNode D
  | [], root => ([], root)
  | [(d, node)], root =>
    if depth ≤ d then ([], { root with children := root.children ++ [node] })
    else ([(d, node)], root)
  | (d, node) :: (d', parent) :: stack, root =>
    if depth ≤ d then
      popTo depth ((d', { parent with children := parent.children ++ [node] }) :: stack) root
    else ((d, node) :: (d', parent) :: stack, root)
  termination_by stack => stack.length

/-- The tree of the nodes by their depths, under `root`; the innermost node is on top. -/
def treeOf (flat : List (ℕ × PlanNode D)) (root : PlanNode D) : PlanNode D :=
  let grown := flat.foldl
    (fun (st : List (ℕ × PlanNode D) × PlanNode D) entry =>
      let (stack, root) := popTo entry.1 st.1 st.2
      (entry :: stack, root)) ([], root)
  (popTo 0 grown.1 grown.2).2

def parseMysqlTree (r : StatementResult) (analyzed : Bool) :
    Except Thrown (Option (Plan D)) := do
  let flat ← (getlines (firstColumn r)).foldlM (mysqlLine lib) []
  if flat.isEmpty then return none
  let root := treeOf flat { operation := "Query".toList }
  let top := match root.children with
    | [child] => child
    | _ => root
  return some { root := top, analyzed, raw := firstColumn r }

end MySQL

section SQLite

structure PlanRow where
  id : ℤ
  parent : ℤ
  detail : Text
  deriving DecidableEq

def stol (s : Text) : Option ℤ := (leadingInt s).filter fun n => -2 ^ 63 ≤ n ∧ n < 2 ^ 63

/-- The rows with their numbers; none where one does not convert. -/
def planRows (tableData : List (List Text)) : Option (List PlanRow) :=
  (tableData.filter fun row => 4 ≤ row.length).mapM fun row => do
    let id ← stol (row.getD 0 [])
    let parent ← stol (row.getD 1 [])
    return { id, parent, detail := row.getD 3 [] }

def childrenOf (rows : List PlanRow) (parent : ℤ) : List PlanRow :=
  rows.filter fun row => row.parent = parent && row.id ≠ parent

/-- The nodes under `parent` and the text of their lines; no result within `fuel` calls. -/
def build (rows : List PlanRow) : ℕ → ℤ → ℕ → Option (List (PlanNode D) × Text)
  | 0, _, _ => none
  | fuel + 1, parent, depth => do
    let built ← (childrenOf rows parent).mapM fun row => do
      let (children, raw) ← build rows fuel row.id (depth + 1)
      return (({ operation := row.detail, children } : PlanNode D),
        List.replicate (depth * 2) ' ' ++ row.detail ++ '\n' :: raw)
    return (built.map Prod.fst, built.flatMap Prod.snd)

def parseSqlite (r : StatementResult) (fuel : ℕ) : Option (Option (Plan D)) :=
  if r.columnNames.length < 4 then some none
  else match planRows r.tableData with
    | none => some none
    | some [] => some none
    | some rows => do
      match ← build rows fuel 0 0 with
      | ([], _) => return none
      | ([root], raw) => return some { root, raw }
      | (children, raw) =>
        return some { root := { operation := "QUERY PLAN".toList, children }, raw }

end SQLite

def fillPlan (plan : Plan D) : Plan D := { plan with root := fillSelfTimes plan.root }

/-- No result where the recursion of `parseSqlite` does not end within `fuel` calls. -/
def parsePlan (type : DatabaseType) (result : StatementResult) (analyzed : Bool) (fuel : ℕ) :
    Option (Except Thrown (Option (Plan D))) :=
  if !result.success || result.tableData.isEmpty then some (.ok none)
  else match type with
    | .POSTGRESQL => some ((parsePostgres lib result analyzed).map (·.map fillPlan))
    | .MYSQL => some ((parseMysqlTree lib result analyzed).map (·.map fillPlan))
    | .SQLITE => (parseSqlite result fuel).map fun plan => .ok (plan.map fillPlan)
    | _ => some (.ok none)

end DearSql.Explain
