import DearSql.KeyMaps
import DearSql.PostgresPlans

/-! The order of a plan's properties: objects of a document are read into maps, which the library
goes through by key. -/
namespace DearSql.Explain

variable {D : Type}

section Stored

mutual

/-- The value that the library makes of a document, whose objects have their fields as in the
text: each object is a map. -/
def Json.stored : Json D → Json D
  | .object fields => .object (KeyMaps.ofFields (storedFields fields))
  | .array items => .array (storedItems items)
  | .null => .null
  | .boolean b => .boolean b
  | .number float value => .number float value
  | .string s => .string s

def storedFields : List (Text × Json D) → List (Text × Json D)
  | [] => []
  | (key, v) :: fields => (key, v.stored) :: storedFields fields

def storedItems : List (Json D) → List (Json D)
  | [] => []
  | item :: items => item.stored :: storedItems items

end

/-- The value that a document gives a key. -/
def Json.written (j : Json D) (key : Text) : Option (Json D) :=
  match j with
  | .object fields => KeyMaps.last key fields
  | _ => none

def Json.writtenPlans (j : Json D) : List (Json D) :=
  match j.written "Plans".toList with
  | some (.array items) => items
  | _ => []

def Json.writtenAt (j : Json D) : List ℕ → Option (Json D)
  | [] => some j
  | i :: path => (j.writtenPlans[i]?).bind fun child => child.writtenAt path

/-- The keys that become properties, in the order of the text. -/
def Json.reported (j : Json D) : List Text := (j.keys.filter fun key => !shown.contains key).dedup

theorem storedFields_eq (fields : List (Text × Json D)) :
    storedFields fields = fields.map fun f => (f.1, f.2.stored) := by
  induction fields with
  | nil => rfl
  | cons f fields ih => exact congrArg _ ih

theorem storedItems_eq (items : List (Json D)) : storedItems items = items.map Json.stored := by
  induction items with
  | nil => rfl
  | cons item items ih => exact congrArg _ ih

theorem find_stored (j : Json D) (key : Text) :
    j.stored.find key = (j.written key).map Json.stored := by
  cases j with
  | object fields =>
    have hget : (Json.object fields).stored.find key =
        KeyMaps.get key (KeyMaps.ofFields (storedFields fields)) := rfl
    rw [hget, KeyMaps.get_ofFields, storedFields_eq, KeyMaps.last_map]
    rfl
  | null | boolean _ | number _ _ | string _ | array _ => rfl

theorem plans_stored (j : Json D) : j.stored.plans = j.writtenPlans.map Json.stored := by
  rw [Json.plans, Json.writtenPlans, find_stored]
  cases j.written "Plans".toList with
  | none => rfl
  | some v =>
    cases v with
    | array items => exact storedItems_eq items
    | null | boolean _ | number _ _ | string _ | object _ => rfl

theorem planAt_stored (j : Json D) (path : List ℕ) :
    j.stored.planAt path = (j.writtenAt path).map Json.stored := by
  induction path generalizing j with
  | nil => rfl
  | cons i path ih =>
    rw [Json.planAt, Json.writtenAt, plans_stored, List.getElem?_map, Option.bind_map,
      Option.map_bind]
    exact congrArg _ (funext fun child => ih child)

theorem topOf_stored (doc : Json D) : topOf doc.stored = (topOf doc).map Json.stored := by
  cases doc with
  | array items =>
    cases items with
    | nil => rfl
    | cons item items => cases item <;> rfl
  | null | boolean _ | number _ _ | string _ | object _ => rfl

theorem keys_stored_filter_iff (j : Json D) :
    j.stored.keys.filter (fun key => !shown.contains key) = j.reported ↔
      j.reported.Pairwise (· < ·) := by
  cases j with
  | object fields =>
    have hkeys : (storedFields fields).map Prod.fst = fields.map Prod.fst := by
      rw [storedFields_eq, List.map_map]
      rfl
    have h := KeyMaps.filter_keys_ofFields_iff (fun key => !shown.contains key) (storedFields fields)
    rw [hkeys] at h
    exact h
  | null | boolean _ | number _ _ | string _ | array _ => exact iff_of_true rfl .nil

end Stored

section Properties

variable [One D] [Mul D] {lib : Lib D} {read : Text → Option (Json D)}

/-- The properties of a plan object stand as in the text exactly where their keys ascend in it. -/
theorem properties_as_written_iff (hlib : ∀ text, lib.parse text = (read text).map Json.stored)
    (r : StatementResult) (analyzed : Bool) {doc top plan : Json D}
    (hdoc : read (firstColumn r) = some doc) (htop : topOf doc = some top)
    (hplan : top.written "Plan".toList = some plan) (hread : Readable plan.stored) :
    ∃ p, parsePostgres lib r analyzed = .ok (some p) ∧
      ∀ path o, plan.writtenAt path = some o → ∃ m, p.root.nodeAt path = some m ∧
        (m.properties.map Prod.fst = o.reported ↔ o.reported.Pairwise (· < ·)) := by
  obtain ⟨root, hroot⟩ := (ok_postgresNode lib plan.stored false).mpr hread
  have hparse : parsePostgres lib r analyzed = .ok (some {
      root, analyzed
      planningTimeMs := number top.stored "Planning Time".toList
      executionTimeMs := number top.stored "Execution Time".toList
      raw := lib.dumpIndented doc.stored }) := by
    rw [parsePostgres, hlib, hdoc]
    simp only [Option.map_some, topOf_stored, htop, find_stored, hplan, hroot]
    rfl
  refine ⟨_, hparse, fun path o ho => ?_⟩
  obtain ⟨hsome, hnodes⟩ := nodeAt_postgresNode path hroot
  have hat : plan.stored.planAt path = some o.stored := by rw [planAt_stored, ho, Option.map_some]
  rw [hat, Option.isSome_some] at hsome
  obtain ⟨m, hm⟩ := Option.isSome_iff_exists.mp hsome
  refine ⟨m, hm, ?_⟩
  rw [(hnodes o.stored m hat hm).properties]
  exact keys_stored_filter_iff o

end Properties

section Documents

/-- The reading of one text. -/
def readOne (text : Text) (doc : Json ℚ) : Text → Option (Json ℚ) :=
  fun t => if t = text then some doc else none

def storingLib (read : Text → Option (Json ℚ)) : Lib ℚ :=
  { bareLib with parse := fun text => (read text).map Json.stored }

def planDocument (plan : Json ℚ) : Json ℚ := .array [.object [("Plan".toList, plan)]]

def sortText : Text :=
  ("[\x7b\"Plan\": \x7b\"Node Type\": \"Sort\", \"Sort Key\": [\"x\"], " ++
    "\"Sort Method\": \"quicksort\"\x7d\x7d]").toList

def sortPlan : Json ℚ := .object [("Node Type".toList, .string "Sort".toList),
  ("Sort Key".toList, .array [.string "x".toList]), ("Sort Method".toList, .string "quicksort".toList)]

theorem readable_sortPlan : Readable sortPlan.stored :=
  ⟨⟨rfl, rfl, fun _ => rfl, rfl⟩, ⟨rfl, ⟨rfl, fun _ => rfl⟩, rfl⟩, trivial⟩

theorem readOne_self (text : Text) (doc : Json ℚ) : readOne text doc text = some doc := if_pos rfl

theorem storingLib_parse (read : Text → Option (Json ℚ)) (text : Text) :
    (storingLib read).parse text = (read text).map Json.stored := rfl

theorem firstColumn_cell (cell : Text) : firstColumn { tableData := [[cell]] } = cell := rfl

/-- A sort, whose key comes before its method in either order. -/
theorem properties_as_written_sort : ∃ p m,
    parsePostgres (storingLib (readOne sortText (planDocument sortPlan)))
      { tableData := [[sortText]] } true = .ok (some p) ∧
    p.root.nodeAt [] = some m ∧
    m.properties.map Prod.fst = ["Sort Key".toList, "Sort Method".toList] := by
  obtain ⟨p, hp, hnodes⟩ := @properties_as_written_iff ℚ _ _
    (storingLib (readOne sortText (planDocument sortPlan))) (readOne sortText (planDocument sortPlan))
    (storingLib_parse _) { tableData := [[sortText]] } true (planDocument sortPlan)
    (.object [("Plan".toList, sortPlan)]) sortPlan (readOne_self _ _) rfl rfl readable_sortPlan
  obtain ⟨m, hm, hiff⟩ := hnodes [] sortPlan rfl
  have hascending : sortPlan.reported.Pairwise (· < ·) := by decide
  exact ⟨p, m, hp, hm, hiff.mpr hascending⟩

def joinText : Text :=
  ("[\x7b\"Plan\": \x7b\"Node Type\": \"Hash Join\", \"Join Type\": \"Inner\", " ++
    "\"Inner Unique\": false, \"Hash Cond\": \"(a.x = b.x)\"\x7d\x7d]").toList

def joinPlan : Json ℚ := .object [("Node Type".toList, .string "Hash Join".toList),
  ("Join Type".toList, .string "Inner".toList), ("Inner Unique".toList, .boolean false),
  ("Hash Cond".toList, .string "(a.x = b.x)".toList)]

/-- A join's condition, which the server writes last, comes out first. -/
theorem join_condition_first :
    joinPlan.reported = ["Inner Unique".toList, "Hash Cond".toList] ∧
    ∃ p, parsePostgres (storingLib (readOne joinText (planDocument joinPlan)))
        { tableData := [[joinText]] } false = .ok (some p) ∧
      p.root.properties.map Prod.fst = ["Hash Cond".toList, "Inner Unique".toList] := by
  refine ⟨by decide, ?_⟩
  rw [parsePostgres, firstColumn_cell, storingLib_parse, readOne_self]
  exact ⟨_, rfl, rfl⟩

end Documents
end DearSql.Explain
