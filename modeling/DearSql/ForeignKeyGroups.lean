import DearSql.SqlBuilder
import DearSql.StableGroups

/-! The FOREIGN KEY constraints of `tableDdl`: which rows go into which of them. -/
namespace DearSql.Builder
open StableGroups

section Definitions

/-- The target table and the actions of a constraint are those of its first row. -/
structure Constraint where
  name : Option Text
  pairs : List (Text × Text)
  first : ForeignKey

def Constraint.text (b : Builder) (c : Constraint) : Text :=
  (match c.name with
    | none => []
    | some n => "CONSTRAINT ".toList ++ b.quoteIdentifier n ++ " ".toList) ++
    "FOREIGN KEY (".toList ++ b.quoteList (c.pairs.map Prod.fst) ++ ") REFERENCES ".toList ++
    b.quoteIdentifier c.first.targetTable ++ " (".toList ++
    b.quoteList (c.pairs.map Prod.snd) ++ ")".toList ++
    ddlAction " ON DELETE ".toList c.first.onDelete ++
    ddlAction " ON UPDATE ".toList c.first.onUpdate

def nameOf (fk : ForeignKey) : Option Text := if fk.name = [] then none else some fk.name

def pairOf (fk : ForeignKey) : Text × Text := (fk.sourceColumn, fk.targetColumn)

/-- What the constraints have to be: one for each name, with the pairs of all its rows, one for
each row without a name, and each where its first row comes. -/
structure Constrains (fks : List ForeignKey) (cs : List Constraint) : Prop where
  nodup : (cs.filterMap Constraint.name).Nodup
  named : ∀ n, n ∈ cs.filterMap Constraint.name ↔ n ≠ [] ∧ n ∈ fks.map (·.name)
  pairs : ∀ c ∈ cs, ∀ n, c.name = some n → c.pairs = (fks.filter fun fk => fk.name = n).map pairOf
  unnamed : (cs.filter fun c => c.name = none).map Constraint.pairs =
    (fks.filter fun fk => fk.name = []).map fun fk => [pairOf fk]
  order : cs.map Constraint.first = firsts nameOf fks
  name : ∀ c ∈ cs, c.name = nameOf c.first
  once : (cs.flatMap Constraint.pairs).Perm (fks.map pairOf)

/-- The lines of `tableDdl` before the foreign keys. -/
def linesBeforeKeys (b : Builder) (table : Table) : List Text :=
  let pk := (table.columns.filter (·.isPrimaryKey)).map (·.name)
  table.columns.map b.ddlColumnLine ++
    (if pk ≠ [] then ["PRIMARY KEY (".toList ++ b.quoteList pk ++ ")".toList] else []) ++
    ((table.indexes.filter ddlIndexKept).filter b.ddlIndexInline).map b.ddlIndexLine

end Definitions

section Groups

variable {fk : ForeignKey} {fks : List ForeignKey}

theorem nameOf_eq_some {n : Text} : nameOf fk = some n ↔ n ≠ [] ∧ fk.name = n := by
  rw [nameOf]
  split_ifs with h
  · exact iff_of_false nofun fun hn => hn.1 (hn.2.symm.trans h)
  · simp only [Option.some_inj]
    exact ⟨fun hn => ⟨hn ▸ h, hn⟩, And.right⟩

theorem nameOf_eq_none : nameOf fk = none ↔ fk.name = [] := by
  rw [nameOf]
  split_ifs with h <;> simp [h]

def named (g : Option Text × List ForeignKey) : Text × List ForeignKey := (g.1.getD [], g.2)

theorem addForeignKey_named (fk : ForeignKey) (gs : List (Option Text × List ForeignKey)) :
    addForeignKey fk (gs.map named) = (push nameOf fk gs).map named := by
  have hname : (nameOf fk).getD [] = fk.name := by
    rw [nameOf]
    split_ifs with h <;> simp [h]
  induction gs with
  | nil => simp [addForeignKey, push, named, hname]
  | cons g gs ih =>
    have hcond : (fk.name ≠ [] ∧ (named g).1 = fk.name) ↔
        ((nameOf fk).isSome ∧ g.1 = nameOf fk) := by
      rw [named, nameOf]
      split_ifs with h
      · simp [h]
      · cases g.1 with
        | none => simp [h, eq_comm]
        | some n => simp [h]
    rw [List.map_cons, addForeignKey, push]
    simp only [hcond]
    split_ifs
    · rfl
    · rw [List.map_cons, ih]

/-- The groups of `tableDdl` are those of the names. -/
theorem groupForeignKeys_eq (fks : List ForeignKey) :
    groupForeignKeys fks = (collect nameOf fks).map named := by
  induction fks using List.reverseRecOn with
  | nil => rfl
  | append_singleton fks fk ih =>
    rw [collect_append_singleton, ← addForeignKey_named, ← ih, groupForeignKeys, List.foldl_append]
    rfl

def constraintOf (fks : List ForeignKey) (fk : ForeignKey) : Constraint :=
  ⟨nameOf fk, (members nameOf fks fk).map pairOf, fk⟩

theorem text_constraintOf (b : Builder) (h : fk ∈ firsts nameOf fks) : (constraintOf fks fk).text b =
    b.ddlForeignKeyLine (named (nameOf fk, members nameOf fks fk)) := by
  have hfirst := head_members h
  rw [Constraint.text, constraintOf, ddlForeignKeyLine, named]
  simp only [hfirst, List.map_map, Function.comp_def, pairOf, Option.map_some, Option.getD_some]
  cases hn : nameOf fk with
  | none => rfl
  | some n =>
    have hne : n ≠ [] := (nameOf_eq_some.mp hn).1
    rw [Option.getD_some, if_neg hne]

theorem members_of_name {n : Text} (h : nameOf fk = some n) :
    members nameOf fks fk = fks.filter fun fk => fk.name = n := by
  rw [members, if_neg (by simp [h]), h]
  refine List.filter_congr fun x _ => ?_
  have hne : n ≠ [] := (nameOf_eq_some.mp h).1
  simp only [nameOf_eq_some, hne, ne_eq, not_false_iff, true_and]

theorem constrains (fks : List ForeignKey) :
    Constrains fks ((firsts nameOf fks).map (constraintOf fks)) where
  nodup := by
    rw [List.filterMap_map]
    exact (nodup_firstsFrom [] fks).1
  named := fun n => by
    have hnames : ((firsts nameOf fks).map (constraintOf fks)).filterMap Constraint.name =
        (firsts nameOf fks).filterMap nameOf := by
      rw [List.filterMap_map]
      rfl
    rw [hnames, mem_keys_firsts, List.mem_filterMap, List.mem_map]
    simp only [nameOf_eq_some]
    tauto
  pairs := by
    intro c hc n hn
    obtain ⟨fk, _, rfl⟩ := List.mem_map.mp hc
    rw [constraintOf, members_of_name hn]
  unnamed := by
    have hfilter : ((firsts nameOf fks).map (constraintOf fks)).filter (fun c => c.name = none) =
        ((firsts nameOf fks).filter fun fk => nameOf fk = none).map (constraintOf fks) := by
      rw [List.filter_map]
      rfl
    rw [hfilter, filter_firsts_none, List.map_map]
    simp only [nameOf_eq_none]
    refine List.map_congr_left fun fk hfk => ?_
    have hname : nameOf fk = none := nameOf_eq_none.mpr (by simpa using (List.mem_filter.mp hfk).2)
    rw [Function.comp, constraintOf, members, if_pos hname, List.map_singleton]
  order := by
    rw [List.map_map]
    exact List.map_id _
  name := by
    intro c hc
    obtain ⟨fk, _, rfl⟩ := List.mem_map.mp hc
    rfl
  once := by
    have hgroups : ((collect nameOf fks).flatMap Prod.snd).Perm fks := collect_perm fks
    have hperm := hgroups.map pairOf
    rw [collect_eq, List.flatMap_map, List.map_flatMap] at hperm
    rwa [List.flatMap_map]

/-- `tableDdl` writes one constraint for each name and for each row without one, and every pair of
columns into exactly one of them. -/
theorem tableDdl_groups (b : Builder) (table : Table) (schemaPrefix : Text) :
    ∃ cs, Constrains table.foreignKeys cs ∧ b.tableDdl table schemaPrefix =
      "CREATE TABLE ".toList ++ b.qualifiedRef schemaPrefix table.name ++ " (\n".toList ++
        joinLines (b.linesBeforeKeys table ++ cs.map (Constraint.text b)) ++ ");".toList ++
        ((table.indexes.filter ddlIndexKept).filter fun idx => !b.ddlIndexInline idx).flatMap
          fun idx => "\n".toList ++ b.ddlIndexAfter (b.qualifiedRef schemaPrefix table.name) idx := by
  refine ⟨_, constrains table.foreignKeys, ?_⟩
  have hlines : ((firsts nameOf table.foreignKeys).map (constraintOf table.foreignKeys)).map
      (Constraint.text b) = (groupForeignKeys table.foreignKeys).map b.ddlForeignKeyLine := by
    rw [groupForeignKeys_eq, collect_eq, List.map_map, List.map_map, List.map_map]
    exact List.map_congr_left fun fk hfk => text_constraintOf b hfk
  rw [hlines]
  rfl

end Groups
end DearSql.Builder
