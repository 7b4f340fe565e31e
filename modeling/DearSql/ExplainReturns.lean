import DearSql.Acyclic
import DearSql.Explain

/-! Which results `parsePlan` turns into a plan or `nullopt`, and on which it throws or does
not come back. -/
namespace DearSql.Explain
open Acyclic

variable {D : Type}

def Ok {α : Type} (r : Except Thrown α) : Prop := ∃ a, r = .ok a

theorem bind_eq_ok {α β : Type} {x : Except Thrown α} {f : α → Except Thrown β} {y : β}
    (h : x.bind f = .ok y) : ∃ a, x = .ok a ∧ f a = .ok y := by
  cases x with
  | error e => cases h
  | ok a => exact ⟨a, rfl, h⟩

theorem ok_bind {α β : Type} {x : Except Thrown α} {f : α → Except Thrown β} :
    Ok (x >>= f) ↔ ∃ a, x = .ok a ∧ Ok (f a) := by
  cases x with
  | error e => simp [Ok, Bind.bind, Except.bind]
  | ok a => simp [Ok, Bind.bind, Except.bind]

theorem ok_map {α β : Type} {x : Except Thrown α} {f : α → β} : Ok (x.map f) ↔ Ok x := by
  cases x with
  | error e => simp [Ok, Except.map]
  | ok a => simp [Ok, Except.map]

@[simp] theorem ok_pure {α : Type} (a : α) : Ok (pure a : Except Thrown α) := ⟨a, rfl⟩

section Postgres

/-- The value under `key` is a text, or there is none. -/
def readsText (j : Json D) (key : Text) : Bool :=
  match j with
  | .object _ =>
    match j.find key with
    | none | some (.string _) => true
    | _ => false
  | _ => false

def readsBool (j : Json D) (key : Text) : Bool :=
  match j with
  | .object _ =>
    match j.find key with
    | none | some (.boolean _) => true
    | _ => false
  | _ => false

def textOr (j : Json D) (key default : Text) : Text :=
  match j.find key with
  | some (.string s) => s
  | _ => default

/-- The texts that the operation is made of; the strategy is read for an `Aggregate` only. -/
def readsOperation (j : Json D) : Prop :=
  readsText j "Node Type".toList = true ∧ readsText j "Join Type".toList = true ∧
    (joined (textOr j "Node Type".toList "?".toList) (textOr j "Join Type".toList []) =
      "Aggregate".toList → readsText j "Strategy".toList = true) ∧
    readsBool j "Parallel Aware".toList = true

/-- The texts that the detail is made of: what is read beside the relation depends on which
of its names is there. -/
def readsDetail (j : Json D) : Prop :=
  readsText j "Relation Name".toList = true ∧
    (if textOr j "Relation Name".toList [] ≠ [] then readsText j "Alias".toList = true
      else readsText j "CTE Name".toList = true ∧
        (textOr j "CTE Name".toList [] = [] → readsText j "Function Name".toList = true)) ∧
    readsText j "Index Name".toList = true

mutual

/-- An object whose values under the keys that `postgresNode` comes to have the types it asks
for, and so all the way down the arrays under `Plans`. -/
def Readable : Json D → Prop
  | .object fields =>
    readsOperation (.object fields) ∧ readsDetail (.object fields) ∧ ReadablePlans fields
  | _ => False

def ReadablePlans : List (Text × Json D) → Prop
  | [] => True
  | (key, v) :: fields =>
    if key = "Plans".toList then
      match v with
      | .array items => ReadableAll items
      | _ => True
    else ReadablePlans fields

def ReadableAll : List (Json D) → Prop
  | [] => True
  | child :: rest => Readable child ∧ ReadableAll rest

end

def boolOr (j : Json D) (key : Text) : Bool :=
  match j.find key with
  | some (.boolean b) => b
  | _ => false

variable {α : Type} {j : Json D} {key default : Text} {parallel : Bool}

theorem ok_bind_valueText {f : Text → Except Thrown α} :
    Ok (valueText j key default >>= f) ↔
      readsText j key = true ∧ Ok (f (textOr j key default)) := by
  rw [ok_bind]
  unfold valueText readsText textOr
  cases j with
  | object fields =>
    cases (Json.object fields).find key with
    | none => simp
    | some v => cases v <;> simp
  | null | boolean _ | number _ _ | string _ | array _ => simp

theorem ok_bind_valueBool {f : Bool → Except Thrown α} :
    Ok (valueBool j key >>= f) ↔ readsBool j key = true ∧ Ok (f (boolOr j key)) := by
  rw [ok_bind]
  unfold valueBool readsBool boolOr
  cases j with
  | object fields =>
    cases (Json.object fields).find key with
    | none => simp
    | some v => cases v <;> simp
  | null | boolean _ | number _ _ | string _ | array _ => simp

theorem ok_operationOf : Ok (operationOf j) ↔ readsOperation j := by
  rw [operationOf, ok_bind_valueText, ok_bind_valueText]
  refine and_congr_right fun _ => and_congr_right fun _ => ?_
  dsimp only
  split_ifs with h
  · rw [ok_bind_valueText, pure_bind, ok_bind_valueBool]
    simp only [h, forall_const, ok_pure, and_true]
  · rw [pure_bind, ok_bind_valueBool]
    simp only [h, false_imp_iff, ok_pure, and_true, true_and]

theorem ok_detailOf : Ok (detailOf j) ↔ readsDetail j := by
  rw [detailOf, ok_bind_valueText]
  refine and_congr_right fun _ => ?_
  dsimp only
  split_ifs with hrel
  · rw [ok_bind_valueText, pure_bind, ok_bind_valueText]
    simp only [ok_pure, and_true]
  · rw [ok_bind_valueText, and_assoc]
    refine and_congr_right fun _ => ?_
    split_ifs with hcte
    · rw [pure_bind, ok_bind_valueText]
      simp only [ok_pure, and_true, hcte, false_imp_iff, true_and]
    · rw [ok_bind_valueText, pure_bind, ok_bind_valueText]
      simp only [ok_pure, and_true, not_ne_iff.mp hcte, forall_const]

theorem ok_ownNode [One D] [Mul D] (lib : Lib D) (parallel : Bool) :
    Ok (ownNode lib j parallel) ↔ readsOperation j ∧ readsDetail j := by
  rw [← ok_operationOf, ← ok_detailOf, ownNode, ok_bind]
  constructor
  · rintro ⟨op, hop, h⟩
    obtain ⟨d, hd, -⟩ := ok_bind.mp h
    exact ⟨⟨op, hop⟩, ⟨d, hd⟩⟩
  · rintro ⟨⟨op, hop⟩, ⟨d, hd⟩⟩
    exact ⟨op, hop, ok_bind.mpr ⟨d, hd, ok_pure _⟩⟩

theorem ok_ownNode_of_not_object [One D] [Mul D] (lib : Lib D)
    (h : readsText j "Node Type".toList = false) :
    Ok (ownNode lib j parallel) ↔ False := by
  rw [ok_ownNode, readsOperation, h]
  simp

theorem ok_gathers (h : readsText j "Node Type".toList = true) (parallel : Bool) :
    Ok (gathers j parallel) := by
  unfold gathers
  split_ifs
  · exact ⟨true, rfl⟩
  · have read : Ok (valueText j "Node Type".toList [] >>= fun t => pure t) :=
      ok_bind_valueText.mpr ⟨h, ok_pure _⟩
    obtain ⟨t, ht, -⟩ := ok_bind.mp read
    exact ⟨_, by rw [ht]; rfl⟩

mutual

theorem ok_postgresNode [One D] [Mul D] (lib : Lib D) :
    ∀ (j : Json D) (parallel : Bool), Ok (postgresNode lib j parallel) ↔ Readable j
  | .object fields, parallel => by
    rw [postgresNode, Readable, ok_bind, ← and_assoc, ← ok_ownNode lib parallel]
    constructor
    · rintro ⟨node, hnode, h⟩
      obtain ⟨below, -, h⟩ := ok_bind.mp h
      obtain ⟨plans, hplans, -⟩ := ok_bind.mp h
      exact ⟨⟨node, hnode⟩, (ok_plansOf lib fields below).mp ⟨plans, hplans⟩⟩
    · rintro ⟨⟨node, hnode⟩, hplans⟩
      obtain ⟨below, hbelow⟩ := ok_gathers ((ok_ownNode lib parallel).mp ⟨node, hnode⟩).1.1 parallel
      obtain ⟨plans, hplans⟩ := (ok_plansOf lib fields below).mpr hplans
      exact ⟨node, hnode, ok_bind.mpr ⟨below, hbelow, ok_bind.mpr ⟨plans, hplans, ok_pure _⟩⟩⟩
  | .null, parallel => ok_ownNode_of_not_object lib rfl
  | .boolean _, parallel => ok_ownNode_of_not_object lib rfl
  | .number _ _, parallel => ok_ownNode_of_not_object lib rfl
  | .string _, parallel => ok_ownNode_of_not_object lib rfl
  | .array _, parallel => ok_ownNode_of_not_object lib rfl

theorem ok_plansOf [One D] [Mul D] (lib : Lib D) :
    ∀ (fields : List (Text × Json D)) (below : Bool),
      Ok (plansOf lib fields below) ↔ ReadablePlans fields
  | [], below => by
    rw [plansOf, ReadablePlans]
    exact iff_of_true (ok_pure _) trivial
  | (key, v) :: fields, below => by
    unfold plansOf ReadablePlans
    split_ifs
    · match v with
      | .array items => exact ok_postgresNodes lib items below
      | .null | .boolean _ | .number _ _ | .string _ | .object _ =>
        exact iff_of_true (ok_pure _) trivial
    · exact ok_plansOf lib fields below

theorem ok_postgresNodes [One D] [Mul D] (lib : Lib D) :
    ∀ (items : List (Json D)) (below : Bool),
      Ok (postgresNodes lib items below) ↔ ReadableAll items
  | [], below => by
    rw [postgresNodes, ReadableAll]
    exact iff_of_true (ok_pure _) trivial
  | child :: rest, below => by
    rw [postgresNodes, ReadableAll, ok_bind, ← ok_postgresNode lib child below,
      ← ok_postgresNodes lib rest below]
    constructor
    · rintro ⟨node, hnode, h⟩
      obtain ⟨nodes, hnodes, -⟩ := ok_bind.mp h
      exact ⟨⟨node, hnode⟩, ⟨nodes, hnodes⟩⟩
    · rintro ⟨⟨node, hnode⟩, ⟨nodes, hnodes⟩⟩
      exact ⟨node, hnode, ok_bind.mpr ⟨nodes, hnodes, ok_pure _⟩⟩

end

/-- What PostgreSQL returned is no JSON, has no plan, or has a readable one. -/
def PostgresReadable (lib : Lib D) (r : StatementResult) : Prop :=
  ∀ doc, lib.parse (firstColumn r) = some doc → ∀ top, topOf doc = some top →
    ∀ plan, top.find "Plan".toList = some plan → Readable plan

theorem ok_parsePostgres [One D] [Mul D] (lib : Lib D) (r : StatementResult) (analyzed : Bool) :
    Ok (parsePostgres lib r analyzed) ↔ PostgresReadable lib r := by
  unfold parsePostgres PostgresReadable
  cases lib.parse (firstColumn r) with
  | none => exact iff_of_true (ok_pure _) fun _ h => by cases h
  | some doc =>
    simp only [Option.some.injEq, forall_eq']
    cases topOf doc with
    | none => exact iff_of_true (ok_pure _) fun _ h => by cases h
    | some top =>
      simp only [Option.some.injEq, forall_eq']
      cases top.find "Plan".toList with
      | none => exact iff_of_true (ok_pure _) fun _ h => by cases h
      | some plan =>
        simp only [Option.some.injEq, forall_eq']
        rw [← ok_postgresNode lib plan false, ok_bind]
        exact ⟨fun ⟨root, h, _⟩ => ⟨root, h⟩, fun ⟨root, h⟩ => ⟨root, h, ok_pure _⟩⟩

end Postgres

section MySQL

/-- `std::stod` has a number to return: the text begins with one that a double holds. -/
def Converts (lib : Lib D) (s : Option Text) : Prop :=
  ∃ q, decimal (s.getD []) = some q ∧ (lib.toDouble q).isSome = true

/-- Every text that the patterns hand to `std::stod` converts. The time of the first row and
the cost of the first row, where there is another, are matched and not converted. -/
def NodeReadable (lib : Lib D) (text : Text) : Prop :=
  (∀ m, regex_search costRe text = some m →
    Converts lib ((group m 2).or (group m 1)) ∧ Converts lib (group m 3)) ∧
  ∀ m, regex_search actualRe text = some m →
    Converts lib (group m 3) ∧ Converts lib (group m 4) ∧ Converts lib (group m 2)

theorem ok_stod {lib : Lib D} {s : Option Text} : Ok (stod lib (s.getD [])) ↔ Converts lib s := by
  unfold stod Converts
  cases decimal (s.getD []) with
  | none => simp [Ok]
  | some q => cases h : lib.toDouble q <;> simp [Ok, h]

theorem ok_bind_stod {α : Type} {lib : Lib D} {s : Option Text} {f : D → Except Thrown α}
    {P : Prop} (hf : ∀ d, Ok (f d) ↔ P) :
    Ok (stod lib (s.getD []) >>= f) ↔ Converts lib s ∧ P := by
  rw [ok_bind, ← ok_stod]
  simp only [hf]
  exact ⟨fun ⟨d, hd, hp⟩ => ⟨⟨d, hd⟩, hp⟩, fun ⟨⟨d, hd⟩, hp⟩ => ⟨d, hd, hp⟩⟩

theorem ok_costOf {lib : Lib D} {text : Text} :
    Ok (costOf lib text) ↔ ∀ m, regex_search costRe text = some m →
      Converts lib ((group m 2).or (group m 1)) ∧ Converts lib (group m 3) := by
  unfold costOf
  cases regex_search costRe text with
  | none => exact iff_of_true (ok_pure _) fun _ h => by cases h
  | some m =>
    simp only [Option.some.injEq, forall_eq']
    rw [ok_bind_stod (P := Converts lib (group m 3)) fun _ => ?_]
    rw [ok_bind_stod (P := True) fun _ => iff_of_true (ok_pure _) trivial, and_true]

theorem ok_actualOf [Zero D] [Mul D] {lib : Lib D} {text : Text} :
    Ok (actualOf lib text) ↔ ∀ m, regex_search actualRe text = some m →
      Converts lib (group m 3) ∧ Converts lib (group m 4) ∧ Converts lib (group m 2) := by
  unfold actualOf
  cases regex_search actualRe text with
  | none =>
    refine iff_of_true ?_ fun _ h => by cases h
    split_ifs
    · exact ok_pure _
    · exact ok_pure _
  | some m =>
    simp only [Option.some.injEq, forall_eq']
    rw [ok_bind_stod (P := Converts lib (group m 4) ∧ Converts lib (group m 2)) fun _ => ?_]
    rw [ok_bind_stod (P := Converts lib (group m 2)) fun _ => ?_]
    rw [ok_bind_stod (P := True) fun _ => iff_of_true (ok_pure _) trivial, and_true]

theorem ok_mysqlNode [Zero D] [Mul D] {lib : Lib D} {text : Text} :
    Ok (mysqlNode lib text) ↔ NodeReadable lib text := by
  rw [NodeReadable, ← ok_costOf, ← ok_actualOf, mysqlNode, ok_bind]
  constructor
  · rintro ⟨c, hc, h⟩
    obtain ⟨a, ha, -⟩ := ok_bind.mp h
    exact ⟨⟨c, hc⟩, ⟨a, ha⟩⟩
  · rintro ⟨⟨c, hc⟩, ⟨a, ha⟩⟩
    exact ⟨c, hc, ok_bind.mpr ⟨a, ha, ok_pure _⟩⟩

/-- Every line with an arrow reads as a node. -/
def MysqlReadable (lib : Lib D) (r : StatementResult) : Prop :=
  ∀ line ∈ getlines (firstColumn r), ∀ arrow, find "-> ".toList line = some arrow →
    NodeReadable lib (line.drop (arrow + 3))

theorem ok_mysqlLine [Zero D] [Mul D] {lib : Lib D} {flat : List (ℕ × PlanNode D)} {line : Text} :
    Ok (mysqlLine lib flat line) ↔ ∀ arrow, find "-> ".toList line = some arrow →
      NodeReadable lib (line.drop (arrow + 3)) := by
  unfold mysqlLine
  cases find "-> ".toList line with
  | none => exact iff_of_true (ok_pure _) fun _ h => by cases h
  | some arrow =>
    simp only [Option.some.injEq, forall_eq']
    rw [← ok_mysqlNode, ok_bind]
    exact ⟨fun ⟨n, h, _⟩ => ⟨n, h⟩, fun ⟨n, h⟩ => ⟨n, h, ok_pure _⟩⟩

theorem ok_foldlM {α β : Type} {f : β → α → Except Thrown β} {P : α → Prop}
    (hf : ∀ b a, Ok (f b a) ↔ P a) {l : List α} {b : β} :
    Ok (l.foldlM f b) ↔ ∀ a ∈ l, P a := by
  induction l generalizing b with
  | nil => exact iff_of_true (ok_pure _) (by simp)
  | cons a l ih =>
    rw [List.foldlM_cons, ok_bind, List.forall_mem_cons, ← hf b]
    simp only [ih]
    exact ⟨fun ⟨c, hc, h⟩ => ⟨⟨c, hc⟩, h⟩, fun ⟨⟨c, hc⟩, h⟩ => ⟨c, hc, h⟩⟩

theorem ok_parseMysqlTree [Zero D] [Mul D] (lib : Lib D) (r : StatementResult) (analyzed : Bool) :
    Ok (parseMysqlTree lib r analyzed) ↔ MysqlReadable lib r := by
  rw [MysqlReadable, ← ok_foldlM (f := mysqlLine lib) (fun _ _ => ok_mysqlLine) (b := []),
    parseMysqlTree, ok_bind]
  refine ⟨fun ⟨flat, h, _⟩ => ⟨flat, h⟩, fun ⟨flat, h⟩ => ⟨flat, h, ?_⟩⟩
  dsimp only
  split_ifs
  · exact ok_pure _
  · exact ok_pure _

end MySQL

section SQLite
variable {rows : List PlanRow} {p q : ℤ}

/-- `q` stands under `p` in the tree of the rows. -/
def Under (rows : List PlanRow) (p q : ℤ) : Prop := ∃ row ∈ childrenOf rows p, row.id = q

theorem isSome_mapM {α β : Type} {f : α → Option β} {l : List α} :
    (l.mapM f).isSome = true ↔ ∀ x ∈ l, (f x).isSome = true := by
  induction l with
  | nil => simp
  | cons x xs ih =>
    rw [List.mapM_cons, List.forall_mem_cons, ← ih]
    cases f x with
    | none => simp
    | some y => cases xs.mapM f <;> simp

theorem isSome_bind_of {α β : Type} {x : Option α} {f : α → Option β}
    (hf : ∀ a, (f a).isSome = true) : (x >>= f).isSome = x.isSome := by
  cases x with
  | none => rfl
  | some a => exact hf a

theorem build_succ {fuel depth : ℕ} :
    (build rows (fuel + 1) p depth : Option (List (PlanNode D) × Text)).isSome = true ↔
      ∀ row ∈ childrenOf rows p,
        (build rows fuel row.id (depth + 1) : Option (List (PlanNode D) × Text)).isSome = true := by
  rw [build, isSome_bind_of fun _ => rfl, isSome_mapM]
  exact forall₂_congr fun row _ => by rw [isSome_bind_of fun _ => rfl]

theorem build_mono {fuel fuel' depth : ℕ} (h : fuel ≤ fuel')
    (hb : (build rows fuel p depth : Option (List (PlanNode D) × Text)).isSome = true) :
    (build rows fuel' p depth : Option (List (PlanNode D) × Text)).isSome = true := by
  induction fuel generalizing p depth fuel' with
  | zero => simp [build] at hb
  | succ fuel ih =>
    obtain ⟨k, rfl⟩ : ∃ k, fuel' = k + 1 := ⟨fuel' - 1, by omega⟩
    rw [build_succ] at hb ⊢
    exact fun row hrow => ih (by omega) (hb row hrow)

/-- The recursion ends exactly where the tree below `p` is well founded. -/
theorem build_ends_iff (D : Type) (depth : ℕ) :
    (∃ fuel, (build rows fuel p depth : Option (List (PlanNode D) × Text)).isSome = true) ↔
      Acc (fun q p => Under rows p q) p := by
  constructor
  · rintro ⟨fuel, h⟩
    induction fuel generalizing p depth with
    | zero => simp [build] at h
    | succ fuel ih =>
      refine Acc.intro _ fun q hq => ?_
      obtain ⟨row, hrow, rfl⟩ := hq
      exact ih _ (build_succ.mp h row hrow)
  · intro h
    induction h generalizing depth with
    | intro p _ ih =>
      have each : ∃ fuel, ∀ row ∈ childrenOf rows p,
          (build rows fuel row.id (depth + 1) : Option (List (PlanNode D) × Text)).isSome = true := by
        have under : ∀ row ∈ childrenOf rows p, Under rows p row.id := fun row h => ⟨row, h, rfl⟩
        generalize childrenOf rows p = l at under
        induction l with
        | nil => exact ⟨0, by simp⟩
        | cons row l ihl =>
          obtain ⟨m, hm⟩ := ihl fun r hr => under r (List.mem_cons_of_mem _ hr)
          obtain ⟨n, hn⟩ := ih row.id (under row List.mem_cons_self) (depth + 1)
          refine ⟨max m n, fun r hr => ?_⟩
          rcases List.mem_cons.mp hr with rfl | hr
          · exact build_mono (le_max_right m n) hn
          · exact build_mono (le_max_left m n) (hm r hr)
      obtain ⟨fuel, hfuel⟩ := each
      exact ⟨fuel + 1, build_succ.mpr hfuel⟩

/-- The rows that number as nodes form no cycle that can be reached from the top. -/
def SqliteReadable (r : StatementResult) : Prop :=
  4 ≤ r.columnNames.length → ∀ rows, planRows r.tableData = some rows → rows ≠ [] →
    NoCycleFrom (Under rows) 0

theorem parseSqlite_ends_iff (r : StatementResult) :
    (∃ fuel, (parseSqlite r fuel : Option (Option (Plan D))).isSome = true) ↔
      SqliteReadable r := by
  unfold SqliteReadable
  by_cases hc : r.columnNames.length < 4
  · refine iff_of_true ⟨0, by simp [parseSqlite, hc]⟩ fun h => absurd h (by omega)
  rw [forall_prop_of_true (by omega)]
  cases hrows : planRows r.tableData with
  | none => exact iff_of_true ⟨0, by simp [parseSqlite, hc, hrows]⟩ fun _ h => by cases h
  | some rows =>
    simp only [Option.some.injEq, forall_eq']
    cases rows with
    | nil => exact iff_of_true ⟨0, by simp [parseSqlite, hc, hrows]⟩ fun h => absurd rfl h
    | cons row rows =>
      rw [forall_prop_of_true (List.cons_ne_nil _ _)]
      have finite : ({q | q ∈ (row :: rows).map (·.id)} : Set ℤ).Finite :=
        List.finite_toSet _
      rw [← acc_iff finite, ← build_ends_iff D 0]
      · refine exists_congr fun fuel => ?_
        simp only [parseSqlite, if_neg hc, hrows]
        rw [isSome_bind_of]
        rintro ⟨children, raw⟩
        cases children with
        | nil => rfl
        | cons c cs => cases cs <;> rfl
      · rintro p q ⟨r, hr, rfl⟩
        exact List.mem_map_of_mem (List.mem_filter.mp hr).1

end SQLite

section ParsePlan

theorem exists_some_ok {P : Except Thrown (Option (Plan D))} :
    (∃ (_ : ℕ) (plan : Option (Plan D)), some P = some (.ok plan)) ↔ Ok P := by
  simp [Ok]

variable [Zero D] [One D] [Add D] [Sub D] [Mul D] [Max D] (lib : Lib D)

/-- `parsePlan` comes back with a plan or `nullopt`. -/
def Returns (type : DatabaseType) (result : StatementResult) (analyzed : Bool) : Prop :=
  ∃ fuel plan, parsePlan lib type result analyzed fuel = some (.ok plan)

/-- What a server returned for the plan reads as its parser expects it. -/
def ReadableResult (type : DatabaseType) (result : StatementResult) : Prop :=
  match type with
  | .POSTGRESQL => PostgresReadable lib result
  | .MYSQL => MysqlReadable lib result
  | .SQLITE => SqliteReadable result
  | _ => True

/-- `parsePlan` never throws and always comes back exactly where the result is readable. -/
theorem parsePlan_returns_iff (type : DatabaseType) (result : StatementResult) (analyzed : Bool) :
    Returns lib type result analyzed ↔
      (result.success = true → result.tableData ≠ [] → ReadableResult lib type result) := by
  unfold Returns parsePlan
  by_cases hskip : (!result.success || result.tableData.isEmpty) = true
  · refine iff_of_true ⟨0, none, by rw [if_pos hskip]⟩ fun hs ht => ?_
    simp [hs, ht] at hskip
  have hs : result.success = true := by
    cases h : result.success <;> simp [h] at hskip ⊢
  have ht : result.tableData ≠ [] := by
    rintro h
    simp [h] at hskip
  simp only [if_neg hskip, forall_prop_of_true hs, forall_prop_of_true ht, ReadableResult]
  cases type with
  | POSTGRESQL => exact exists_some_ok.trans (ok_map.trans (ok_parsePostgres lib result analyzed))
  | MYSQL => exact exists_some_ok.trans (ok_map.trans (ok_parseMysqlTree lib result analyzed))
  | SQLITE =>
    rw [← parseSqlite_ends_iff (D := D)]
    refine exists_congr fun fuel => ?_
    cases (parseSqlite result fuel : Option (Option (Plan D))) with
    | none => simp
    | some plan => simp
  | REDSHIFT | COCKROACHDB | MARIADB | TIDB | MSSQL | ORACLE | DUCKDB | MONGODB | REDIS
  | CASSANDRA | S3 => exact iff_of_true ⟨0, none, rfl⟩ trivial

/-- A cost of `.` matches the pattern and is no number. -/
theorem parsePlan_throws :
    ¬Returns (D := ℚ) ⟨fun _ => none, fun _ => [], fun _ => [], fun _ => [], some⟩ .MYSQL
      { columnNames := [['E']], tableData := [["-> x (cost=. rows=1)".toList]] } false := by
  rintro ⟨fuel, plan, h⟩
  have : parsePlan (D := ℚ) ⟨fun _ => none, fun _ => [], fun _ => [], fun _ => [], some⟩ .MYSQL
      { columnNames := [['E']], tableData := [["-> x (cost=. rows=1)".toList]] } false fuel =
        some (.error .invalid_argument) := by rfl
  rw [this] at h
  cases h

end ParsePlan
end DearSql.Explain
