import DearSql.PgTables

/-! `populateIncomingForeignKeys` as a loop over the list that it edits, with its map from the
names to the places. -/
namespace DearSql.Incoming
open Pg (incomingTo)

section Loops

def cleared (t : Table) : Table := { t with incomingForeignKeys := [] }

/-- The places of the tables by name; of several tables with one name the last counts. -/
def lookup (tables : List Table) : Text → Option ℕ :=
  tables.zipIdx.foldl (fun lookup e => Function.update lookup e.1.name (some e.2)) fun _ => none

/-- `fk` as the table it refers to lists it. -/
def incomingFrom (source : Text) (fk : ForeignKey) : ForeignKey := { fk with targetTable := source }

def receive (incoming : ForeignKey) (t : Table) : Table :=
  { t with incomingForeignKeys := t.incomingForeignKeys ++ [incoming] }

/-- One turn of the inner loop: the key goes to the table at the place of its target. -/
def pushKey (lookup : Text → Option ℕ) (src : Table) (tables : List Table) (fk : ForeignKey) :
    List Table :=
  match lookup fk.targetTable with
  | none => tables
  | some i => tables.modify i (receive (incomingFrom src.name fk))

/-- One turn of the outer loop, over the list as it stands. -/
def pushKeysOf (lookup : Text → Option ℕ) (tables : List Table) (i : ℕ) : List Table :=
  match tables[i]? with
  | none => tables
  | some src => src.foreignKeys.foldl (pushKey lookup src) tables

def populateIncomingForeignKeys (tables : List Table) : List Table :=
  (List.range tables.length).foldl (pushKeysOf (lookup tables)) (tables.map cleared)

end Loops

section Turns

variable {tables : List Table} {pushed : List (ℕ × ForeignKey)} {i : ℕ} {src : Table}

/-- The tables once the keys `pushed` went to their places. -/
def withKeys (tables : List Table) (pushed : List (ℕ × ForeignKey)) : List Table :=
  tables.mapIdx fun i t =>
    { t with incomingForeignKeys := (pushed.filter fun e => e.1 = i).map Prod.snd }

theorem withKeys_nil (tables : List Table) : withKeys tables [] = tables.map cleared := by
  apply List.ext_getElem (by simp [withKeys])
  intro i _ _
  simp [withKeys, cleared]

theorem modify_withKeys (fk : ForeignKey) :
    (withKeys tables pushed).modify i (receive fk) = withKeys tables (pushed ++ [(i, fk)]) := by
  apply List.ext_getElem (by simp [withKeys])
  intro j hj hj'
  simp only [withKeys, List.getElem_modify, List.getElem_mapIdx, receive]
  split_ifs with hij
  · simp [hij]
  · simp [hij]

/-- Where the keys of `src` go. -/
def keysFrom (lookup : Text → Option ℕ) (src : Table) : List (ℕ × ForeignKey) :=
  src.foreignKeys.filterMap fun fk =>
    (lookup fk.targetTable).map fun i => (i, incomingFrom src.name fk)

theorem foldl_pushKey (lookup : Text → Option ℕ) (fks : List ForeignKey) :
    fks.foldl (pushKey lookup src) (withKeys tables pushed) = withKeys tables (pushed ++
      fks.filterMap fun fk => (lookup fk.targetTable).map fun i => (i, incomingFrom src.name fk)) := by
  induction fks generalizing pushed with
  | nil => simp
  | cons fk fks ih =>
    rw [List.foldl_cons, pushKey, List.filterMap_cons]
    cases lookup fk.targetTable with
    | none => exact ih
    | some i =>
      simp only [modify_withKeys, ih, List.append_assoc, List.singleton_append, Option.map_some]

/-- A turn reads the name and the keys of its table, which no turn changes. -/
theorem pushKeysOf_withKeys (lookup : Text → Option ℕ) (hi : tables[i]? = some src) :
    pushKeysOf lookup (withKeys tables pushed) i =
      withKeys tables (pushed ++ keysFrom lookup src) := by
  rw [pushKeysOf, withKeys, List.getElem?_mapIdx, hi]
  exact foldl_pushKey lookup src.foreignKeys

theorem run_withKeys (lookup : Text → Option ℕ) (n : ℕ) (hn : n ≤ tables.length) :
    (List.range n).foldl (pushKeysOf lookup) (withKeys tables []) =
      withKeys tables ((tables.take n).flatMap (keysFrom lookup)) := by
  induction n with
  | zero => rfl
  | succ n ih =>
    have hget : tables[n]? = some tables[n] := List.getElem?_eq_getElem hn
    rw [List.range_succ, List.foldl_append, ih (by omega), List.foldl_cons, List.foldl_nil,
      pushKeysOf_withKeys lookup hget, List.take_add_one, hget, List.flatMap_append]
    simp

end Turns

section Transpose

variable {tables : List Table} {name : Text} {i : ℕ}

theorem lookup_append (tables : List Table) (t : Table) :
    lookup (tables ++ [t]) = Function.update (lookup tables) t.name (some tables.length) := by
  simp [lookup, List.zipIdx_append]

/-- What the map holds: the last place with the name. -/
theorem lookup_eq_some : lookup tables name = some i ↔
    ∃ t, tables[i]? = some t ∧ t.name = name ∧ ∀ u ∈ tables.drop (i + 1), u.name ≠ name := by
  induction tables using List.reverseRecOn with
  | nil => simp [lookup]
  | append_singleton tables t ih =>
    rw [lookup_append, Function.update_apply]
    rcases lt_trichotomy i tables.length with hi | rfl | hi
    · have hdrop : (tables ++ [t]).drop (i + 1) = tables.drop (i + 1) ++ [t] :=
        List.drop_append_of_le_length hi
      rw [List.getElem?_append_left hi, hdrop]
      split_ifs with hname
      · refine iff_of_false (by simp; omega) ?_
        rintro ⟨_, _, _, hall⟩
        exact hall t (by simp) hname.symm
      · rw [ih]
        refine exists_congr fun u => and_congr_right fun _ => and_congr_right fun _ => ?_
        simp only [List.mem_append, List.mem_singleton, or_imp, forall_and, forall_eq]
        exact ⟨fun h => ⟨h, fun h => hname h.symm⟩, And.left⟩
    · split_ifs with hname
      · simp [hname]
      · refine iff_of_false ?_ ?_
        · rw [ih]
          simp
        · rintro ⟨u, hu, hname', -⟩
          simp at hu
          exact hname (by rw [hu, hname'])
    · have hout : (tables ++ [t])[i]? = none := by
        rw [List.getElem?_eq_none_iff]
        simpa using hi
      have hout' : tables[i]? = none := List.getElem?_eq_none_iff.mpr hi.le
      rw [hout]
      split_ifs with hname
      · simp
        omega
      · rw [ih, hout']
        simp

theorem keysFrom_at (lookup : Text → Option ℕ) (src : Table) (i : ℕ) :
    ((keysFrom lookup src).filter fun e => e.1 = i).map Prod.snd =
      (src.foreignKeys.filter fun fk => lookup fk.targetTable = some i).map
        (incomingFrom src.name) := by
  rw [keysFrom]
  induction src.foreignKeys with
  | nil => rfl
  | cons fk fks ih =>
    rw [List.filterMap_cons, List.filter_cons]
    cases lookup fk.targetTable with
    | none => simpa using ih
    | some j =>
      by_cases hj : j = i
      · simp [hj, ih]
      · simp [hj, ih]

/-- The loop gives the tables of one pass over the places. -/
theorem populate_eq (tables : List Table) :
    populateIncomingForeignKeys tables = Pg.populateIncomingForeignKeys tables := by
  rw [populateIncomingForeignKeys, ← withKeys_nil, run_withKeys _ _ le_rfl, List.take_length,
    withKeys, Pg.populateIncomingForeignKeys]
  apply List.ext_getElem (by simp)
  intro i hi hi'
  have hlt : i < tables.length := by simpa using hi
  rw [List.getElem_mapIdx, List.getElem_mapIdx]
  congr 1
  have hget : tables[i]? = some tables[i] := List.getElem?_eq_getElem hlt
  have hlookup (name : Text) : lookup tables name = some i ↔
      ((tables.drop (i + 1)).all fun u => u.name ≠ tables[i].name) = true ∧
        name = tables[i].name := by
    rw [lookup_eq_some, hget]
    constructor
    · rintro ⟨t, ht, rfl, hall⟩
      obtain rfl := Option.some_inj.mp ht
      exact ⟨by simpa using hall, rfl⟩
    · rintro ⟨hall, rfl⟩
      exact ⟨_, rfl, rfl, by simpa using hall⟩
  rw [List.filter_flatMap, List.map_flatMap]
  simp only [keysFrom_at, hlookup]
  generalize ((tables.drop (i + 1)).all fun u => u.name ≠ tables[i].name) = isLast
  cases isLast with
  | false => simp
  | true =>
    simp only [true_and]
    rfl

/-- The incoming keys of a table are the keys that refer to it, and a second run changes nothing. -/
theorem populate_transposes (hnames : (tables.map (·.name)).Nodup) :
    populateIncomingForeignKeys tables =
        tables.map (fun t => { t with incomingForeignKeys := incomingTo tables t.name }) ∧
      populateIncomingForeignKeys (populateIncomingForeignKeys tables) =
        populateIncomingForeignKeys tables := by
  have once (tables : List Table) (hnames : (tables.map (·.name)).Nodup) :
      populateIncomingForeignKeys tables =
        tables.map fun t => { t with incomingForeignKeys := incomingTo tables t.name } := by
    rw [populate_eq, Pg.populateIncomingForeignKeys]
    apply List.ext_getElem (by simp)
    intro i hi hi'
    have hlt : i < tables.length := by simpa using hi
    have hlast : ((tables.drop (i + 1)).all fun u => u.name ≠ tables[i].name) = true := by
      rw [← List.take_append_drop i tables, List.drop_eq_getElem_cons hlt, List.map_append,
        List.map_cons] at hnames
      have hnotin := (List.nodup_cons.mp (List.nodup_append.mp hnames).2.1).1
      refine List.all_eq_true.mpr fun u hu => ?_
      simp only [decide_eq_true_eq]
      intro hname
      exact hnotin (hname ▸ List.mem_map_of_mem hu)
    simp only [List.getElem_mapIdx, List.getElem_map, if_pos hlast]
  refine ⟨once tables hnames, ?_⟩
  have hagain (name : Text) : incomingTo (populateIncomingForeignKeys tables) name =
      incomingTo tables name := by
    rw [once tables hnames, incomingTo, List.flatMap_map]
    rfl
  have hnames' : ((populateIncomingForeignKeys tables).map (·.name)).Nodup := by
    rwa [populate_eq, Pg.populate_keeps _ _ fun _ _ => rfl]
  rw [once _ hnames']
  simp only [hagain]
  rw [once tables hnames, List.map_map]
  rfl

/-- A row that refers to its own table, one that refers to another, and one to a table elsewhere. -/
def orders : List Table :=
  [{ name := "users".toList
     incomingForeignKeys := [{ name := "stale".toList }] },
    { name := "orders".toList
      foreignKeys := [{ name := "fk_user".toList, targetTable := "users".toList },
        { name := "fk_parent".toList, targetTable := "orders".toList },
        { name := "fk_region".toList, targetTable := "regions".toList }] }]

theorem orders_transposed :
    populateIncomingForeignKeys orders =
        orders.map (fun t => { t with incomingForeignKeys := incomingTo orders t.name }) ∧
      populateIncomingForeignKeys (populateIncomingForeignKeys orders) =
        populateIncomingForeignKeys orders :=
  populate_transposes (by decide)

end Transpose
end DearSql.Incoming
