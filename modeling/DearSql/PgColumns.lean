import DearSql.PgTables

/-! The columns `tablesIn` lists. Each key a column takes part in is one more row of the
join, and so is each primary key of the database that has the name of that key. -/
namespace DearSql.Pg
open Joins

namespace PgCatalog
variable (cat : PgCatalog)

/-- The keys of the table `rel` that the column `i` takes part in. -/
def keysAt (rel i : ℕ) : List PgConstraint :=
  cat.constraints.filter fun k => k.isKey ∧ k.conrelid = rel ∧ i ∈ k.conkey

/-- The primary keys of that name, in every schema. -/
def primariesNamed (name : Text) : List PgConstraint :=
  cat.constraints.filter fun k => k.contype = .primary ∧ k.conname = name

/-- What the rows of the column `i` say about its being a primary key column. -/
def flags (rel i : ℕ) : List Bool :=
  (orNull (cat.keysAt rel i)).flatMap fun k =>
    (orNull (k.toList.flatMap fun k => cat.primariesNamed k.conname)).map Option.isSome

def isPrimaryColumn (rel i : ℕ) : Prop :=
  ∃ k ∈ cat.constraints, k.contype = .primary ∧ k.conrelid = rel ∧ i ∈ k.conkey

instance (rel i : ℕ) : Decidable (cat.isPrimaryColumn rel i) := by
  unfold isPrimaryColumn; infer_instance

/-- At most one key has the column `i`, and no other primary key has the name of that key. -/
def SingleKey (rel i : ℕ) : Prop :=
  (cat.keysAt rel i).length ≤ 1 ∧ ∀ k ∈ cat.keysAt rel i, ∀ p ∈ cat.primariesNamed k.conname, p = k

instance (rel i : ℕ) : Decidable (cat.SingleKey rel i) := by
  unfold SingleKey; infer_instance

def columnsOf (rel : ℕ) : List PgAttribute :=
  (cat.attributes.filter fun a => a.attrelid = rel).insertionSort fun a b => a.attnum ≤ b.attnum

end PgCatalog

def PgAttribute.toColumn (a : PgAttribute) (pk : Bool) : Column :=
  { name := a.attname, type := a.columnType, isNotNull := !a.isNullable, isPrimaryKey := pk
    isAutoIncrement := a.autoIncrement, defaultValue := a.columnDefault.getD [] }

/-- Each table of the schema is there once, with its columns in order, and the primary
key columns marked. -/
def ListsColumns (cat : PgCatalog) (schema : Text) (tables : List Table) : Prop :=
  (tables.map Table.name).Perm
      ((cat.tables.filter fun t => t.2 = schema).map fun t => t.1.relname) ∧
    ∀ t ∈ cat.tables, t.2 = schema → ∀ u ∈ tables, u.name = t.1.relname →
      u.columns = (cat.columnsOf t.1.oid).map fun a =>
        a.toColumn (cat.isPrimaryColumn t.1.oid a.attnum)

section Rows
variable {cat : PgCatalog} {t : PgClass × Text} {a : PgAttribute}

theorem readTableColumn_cells (c : ColumnsRow) (pk : Bool) :
    readTableColumn (PgCatalog.columnCells c pk) = some (c.tableName, c.column.toColumn pk) := by
  cases hn : c.column.isNullable <;> cases hp : pk <;> cases hi : c.column.autoIncrement <;>
    simp [readTableColumn, PgCatalog.columnCells, PgAttribute.toColumn, boolText, hn, hi]

/-- The rows of `key_column_usage` for one column: one for each key that has it. -/
theorem keyColumnUsage_column (ht : t ∈ cat.tables) (ha : a ∈ cat.attributes)
    (hrel : a.attrelid = t.1.oid) :
    (cat.keyColumnUsage.filter fun kcu => a.attname = kcu.columnName ∧
        t.1.relname = kcu.tableName ∧ t.2 = kcu.tableSchema) =
      (cat.keysAt t.1.oid a.attnum).map fun k => ⟨k.conname, t.2, t.1.relname, a.attname⟩ := by
  have hkeys : cat.keysAt t.1.oid a.attnum =
      (cat.constraints.filter PgConstraint.isKey).filter fun k =>
        k.conrelid = t.1.oid ∧ a.attnum ∈ k.conkey := by
    simp only [PgCatalog.keysAt, List.filter_filter]
    congr 1
    funext k
    cases hk : k.isKey <;> simp
  rw [PgCatalog.keyColumnUsage, List.filter_flatMap, hkeys, map_filter_eq]
  apply List.flatMap_congr
  intro k hk
  have hkc := (List.mem_filter.mp hk).1
  obtain ⟨t', ht', ho, hat⟩ := PgCatalog.exists_table (cat.constraint_class k hkc)
  obtain ⟨hnd, hcols⟩ := cat.constraint_key k hkc
  rw [hat, List.flatMap_singleton, List.filter_flatMap]
  have hrow : ∀ i ∈ k.conkey,
      ((cat.attributeAt k.conrelid i).map fun a' : PgAttribute =>
          (⟨k.conname, t'.2, t'.1.relname, a'.attname⟩ : UsageRow)).filter (fun kcu =>
        a.attname = kcu.columnName ∧ t.1.relname = kcu.tableName ∧ t.2 = kcu.tableSchema) =
      if k.conrelid = t.1.oid ∧ i = a.attnum then
        [⟨k.conname, t.2, t.1.relname, a.attname⟩] else [] := by
    intro i hi
    obtain ⟨a', ha', hrel', hnum⟩ := hcols i hi
    rw [PgCatalog.attributeAt_eq ha' hrel' hnum, List.map_singleton]
    by_cases hsame : a.attname = a'.attname ∧ t.1.relname = t'.1.relname ∧ t.2 = t'.2
    · obtain ⟨hn, hr, hs⟩ := hsame
      obtain rfl := PgCatalog.table_ext ht ht' hs hr
      obtain rfl := PgCatalog.attribute_ext ha ha' (by rw [hrel, hrel', ho]) hn
      simp [ho, hnum]
    · have hne : ¬ (k.conrelid = t.1.oid ∧ i = a.attnum) := by
        rintro ⟨hc, rfl⟩
        obtain rfl := eq_of_key cat.tables_oids ht ht' (by rw [ho, hc])
        obtain rfl := PgCatalog.attribute_ext_num ha ha' (by rw [hrel, hrel', hc]) hnum.symm
        exact hsame ⟨rfl, rfl, rfl⟩
      simp [hsame, hne]
  rw [List.flatMap_congr hrow]
  by_cases hin : k.conrelid = t.1.oid ∧ a.attnum ∈ k.conkey
  · rw [flatMap_eq_of_only hnd hin.2 fun i _ hne => by simp [hne]]
    simp [hin]
  · simp only [hin, decide_false, Bool.false_eq_true, if_false, List.flatMap_eq_nil_iff]
    intro i hi
    rw [if_neg]
    rintro ⟨hc, rfl⟩
    exact hin ⟨hc, hi⟩

/-- The rows of `table_constraints`: one for each constraint. -/
theorem tableConstraints_map (cat : PgCatalog) :
    cat.tableConstraints.map (fun tc => (tc.constraintName, tc.constraintType)) =
      cat.constraints.map fun k => (k.conname, k.contype) := by
  rw [PgCatalog.tableConstraints, List.map_flatMap, List.map_eq_flatMap]
  apply List.flatMap_congr
  intro k hk
  obtain ⟨t, -, -, hat⟩ := PgCatalog.exists_table (cat.constraint_class k hk)
  simp [hat]

/-- One flag for each joined row. -/
theorem joined_flags (ht : t ∈ cat.tables) (ha : a ∈ cat.attributes)
    (hrel : a.attrelid = t.1.oid) :
    (cat.joinedConstraints .owner ⟨t.2, t.1.relname, a⟩).map
        (fun tc => tc.any fun tc => tc.constraintType = .primary) =
      cat.flags t.1.oid a.attnum := by
  rw [PgCatalog.joinedConstraints, PgCatalog.shownKeyUsage_owner, PgCatalog.shownConstraints_owner,
    keyColumnUsage_column ht ha hrel, orNull_map,
    List.flatMap_map, List.map_flatMap, PgCatalog.flags]
  apply List.flatMap_congr
  intro k _
  set ms := cat.tableConstraints.filter fun tc =>
    (k.map fun k => (⟨k.conname, t.2, t.1.relname, a.attname⟩ : UsageRow)).map
      UsageRow.constraintName = some tc.constraintName ∧ tc.constraintType = .primary with hms
  have hprim : ∀ tc ∈ ms, decide (tc.constraintType = .primary) = true := by
    intro tc htc
    simp only [hms, List.mem_filter, decide_eq_true_eq] at htc
    exact decide_eq_true htc.2.2
  have hmap : ms.map (fun tc => (tc.constraintName, tc.constraintType)) =
      (k.toList.flatMap fun k => cat.primariesNamed k.conname).map fun p =>
        (p.conname, p.contype) := by
    cases k with
    | none => simp [hms]
    | some k =>
      have hl : ms = cat.tableConstraints.filter
          ((fun x : Text × ConType => decide (x.2 = .primary ∧ x.1 = k.conname)) ∘
            fun tc => (tc.constraintName, tc.constraintType)) := by
        rw [hms]
        congr 1
        funext tc
        simp [and_comm, eq_comm]
      rw [hl, ← List.filter_map, tableConstraints_map, List.filter_map]
      simp [PgCatalog.primariesNamed, Function.comp_def]
  exact (map_any_orNull hprim).trans ((map_isSome_orNull _ ms).symm.trans
    (by rw [hmap, map_isSome_orNull]))

/-- The rows of a column say the truth, once, exactly where it has a single key. -/
theorem flags_eq_iff {rel i : ℕ} :
    cat.flags rel i = [decide (cat.isPrimaryColumn rel i)] ↔ cat.SingleKey rel i := by
  have hmem : ∀ k, k ∈ cat.keysAt rel i ↔
      k ∈ cat.constraints ∧ k.isKey ∧ k.conrelid = rel ∧ i ∈ k.conkey := by
    simp [PgCatalog.keysAt]
  have hprim : ∀ {n k}, k ∈ cat.primariesNamed n ↔
      k ∈ cat.constraints ∧ k.contype = .primary ∧ k.conname = n := by
    simp [PgCatalog.primariesNamed]
  have hpk : cat.isPrimaryColumn rel i ↔ ∃ k ∈ cat.keysAt rel i, k.contype = .primary := by
    constructor
    · rintro ⟨k, hk, hp, hr, hi⟩
      exact ⟨k, (hmem k).mpr ⟨hk, by simp [PgConstraint.isKey, hp], hr, hi⟩, hp⟩
    · rintro ⟨k, hk, hp⟩
      obtain ⟨hkc, -, hr, hi⟩ := (hmem k).mp hk
      exact ⟨k, hkc, hp, hr, hi⟩
  unfold PgCatalog.flags PgCatalog.SingleKey
  cases hks : cat.keysAt rel i with
  | nil => simp [hpk, hks]
  | cons k ks =>
    have hkc : k ∈ cat.constraints := ((hmem k).mp (by simp [hks])).1
    cases ks with
    | cons k' ks =>
      have hlen : (orNull (k :: k' :: ks)).length ≤ ((orNull (k :: k' :: ks)).flatMap fun k =>
          (orNull (k.toList.flatMap fun k => cat.primariesNamed k.conname)).map
            Option.isSome).length :=
        length_le_flatMap fun k _ => by simpa using orNull_ne_nil _
      constructor
      · intro h
        rw [h] at hlen
        simp at hlen
      · rintro ⟨h, -⟩
        simp at h
    | nil =>
      have hself : k.contype = .primary → k ∈ cat.primariesNamed k.conname :=
        fun hp => hprim.mpr ⟨hkc, hp, rfl⟩
      simp only [orNull_cons, List.map_nil, List.flatMap_singleton, Option.toList_some, hpk, hks,
        List.mem_singleton, exists_eq_left, forall_eq, List.length_singleton, le_refl, true_and]
      cases hps : cat.primariesNamed k.conname with
      | nil =>
        have hnot : k.contype ≠ .primary := fun hp => absurd (hself hp) (by simp [hps])
        simp [hnot]
      | cons p ps =>
        have hpm : p ∈ cat.primariesNamed k.conname := by simp [hps]
        have hp : p.contype = .primary := (hprim.mp hpm).2.1
        cases ps with
        | nil =>
          simp only [orNull_cons, List.map_cons, List.map_nil, Option.isSome_some,
            List.mem_singleton, forall_eq, List.cons.injEq, and_true, true_eq_decide_iff]
          constructor
          · intro hk
            have := hself hk
            rw [hps, List.mem_singleton] at this
            exact this.symm
          · rintro rfl
            exact hp
        | cons q ps =>
          have hnd : (cat.primariesNamed k.conname).Nodup := cat.constraints_nodup.filter _
          rw [hps] at hnd
          constructor
          · intro h
            simp at h
          · intro h
            have hpq : p = q := (h p (by simp)).trans (h q (by simp)).symm
            simp [hpq] at hnd

/-- The rows of one table: for each of its columns one row a flag. -/
theorem tableColumnRows_table (ht : t ∈ cat.tables) {names : List Text}
    (hname : t.1.relname ∈ names) :
    ((cat.columnsView.filter fun c => c.tableSchema = t.2 ∧ c.tableName ∈ names).flatMap fun c =>
        (cat.joinedConstraints .owner c).map fun tc =>
          (c, tc.any fun tc => tc.constraintType = .primary)).filter
        (fun x => x.1.tableName = t.1.relname) =
      (cat.attributes.filter fun a => a.attrelid = t.1.oid).flatMap fun a =>
        (cat.flags t.1.oid a.attnum).map fun pk => (⟨t.2, t.1.relname, a⟩, pk) := by
  have hrow : ∀ c : ColumnsRow, ((cat.joinedConstraints .owner c).map fun tc =>
      (c, tc.any fun tc => tc.constraintType = .primary)).filter
        (fun x => x.1.tableName = t.1.relname) =
      if c.tableName = t.1.relname then (cat.joinedConstraints .owner c).map fun tc =>
        (c, tc.any fun tc => tc.constraintType = .primary) else [] := by
    intro c
    split_ifs with hc <;> simp [hc]
  have hfilter : (cat.columnsView.filter fun c => c.tableSchema = t.2 ∧ c.tableName ∈ names).filter
      (fun c => c.tableName = t.1.relname) =
      cat.columnsView.filter fun c => c.tableSchema = t.2 ∧ c.tableName = t.1.relname := by
    rw [List.filter_filter]
    congr 1
    funext c
    by_cases hc : c.tableName = t.1.relname <;> simp [hc, hname]
  rw [List.filter_flatMap]
  simp only [hrow]
  have hpick := flatMap_if
    (cat.columnsView.filter fun c => c.tableSchema = t.2 ∧ c.tableName ∈ names)
    (fun c => decide (c.tableName = t.1.relname)) fun c => (cat.joinedConstraints .owner c).map fun tc =>
      (c, tc.any fun tc => tc.constraintType = .primary)
  simp only [decide_eq_true_eq] at hpick
  rw [hpick, hfilter, PgCatalog.columnsView_table ht, List.flatMap_map]
  apply List.flatMap_congr
  intro a ha
  simp only [List.mem_filter, decide_eq_true_eq] at ha
  rw [← joined_flags ht ha.1 ha.2, List.map_map]
  rfl

end Rows

section Listing
variable {cat : PgCatalog} {lt : Text → Text → Prop} {ask : CatalogQuery → QueryResult}
  {schema : Text}

/-- The columns read for one table, in the order of the rows, which is that of the columns. -/
theorem read_columns {t : PgClass × Text} (ht : t ∈ cat.tables) {names : List Text}
    (hname : t.1.relname ∈ names) {res : List Row}
    (h : Answers (Prod.Lex lt (· < ·)) (cat.tableColumnRows .owner t.2 names) res) :
    ∃ xs : List (PgAttribute × Bool),
      xs.Perm ((cat.attributes.filter fun a => a.attrelid = t.1.oid).flatMap fun a =>
        (cat.flags t.1.oid a.attnum).map fun pk => (a, pk)) ∧
      xs.Pairwise (fun x y => x.1.attnum ≤ y.1.attnum) ∧
      pushed (res.filterMap readTableColumn) t.1.relname = xs.map fun x => x.1.toColumn x.2 := by
  have hrows : cat.tableColumnRows .owner t.2 names =
      ((cat.columnsView.filter fun c => c.tableSchema = t.2 ∧ c.tableName ∈ names).flatMap fun c =>
        (cat.joinedConstraints .owner c).map fun tc =>
          (c, tc.any fun tc => tc.constraintType = .primary)).map fun x =>
        ((x.1.tableName, x.1.column.attnum), PgCatalog.columnCells x.1 x.2) := by
    simp only [PgCatalog.tableColumnRows, PgCatalog.shownColumns_owner, List.map_flatMap,
      List.map_map, Function.comp_def]
  rw [hrows] at h
  obtain ⟨ys, hperm, hpair, rfl⟩ := h.lift
  refine ⟨(ys.filter fun x => x.1.tableName = t.1.relname).map fun x => (x.1.column, x.2), ?_, ?_, ?_⟩
  · have := (hperm.filter fun x => x.1.tableName = t.1.relname).map
      fun x : ColumnsRow × Bool => (x.1.column, x.2)
    rw [tableColumnRows_table ht hname, List.map_flatMap] at this
    simpa [Function.comp_def] using this
  · rw [List.pairwise_map, List.pairwise_filter]
    refine hpair.imp fun {x y} hxy hx hy => ?_
    simp only [decide_eq_true_eq] at hx hy
    rw [hx, hy] at hxy
    exact not_lt.mp fun hlt => hxy (.right _ hlt)
  · rw [List.filterMap_map]
    have hread : (fun x : ColumnsRow × Bool => readTableColumn (PgCatalog.columnCells x.1 x.2)) =
        fun x => some (x.1.tableName, x.1.column.toColumn x.2) :=
      funext fun x => readTableColumn_cells x.1 x.2
    simp only [Function.comp_def, hread]
    rw [List.filterMap_eq_map', pushed, List.filter_map]
    simp [Function.comp_def]

/-- Among the columns made of the rows of a table, those of one name. -/
theorem filter_named {rel : ℕ} {a : PgAttribute} (ha : a ∈ cat.attributes) (hrel : a.attrelid = rel)
    (f : PgAttribute → List Bool) :
    ((cat.attributes.filter fun a => a.attrelid = rel).flatMap fun b =>
        (f b).map b.toColumn).filter (fun c => c.name = a.attname) = (f a).map a.toColumn := by
  have hnd : cat.attributes.Nodup := .of_map _ cat.attribute_nums
  rw [List.filter_flatMap, flatMap_eq_of_only (hnd.filter _) (x := a) (by simp [ha, hrel])]
  · simp [List.filter_map, Function.comp_def, PgAttribute.toColumn]
  · intro b hb hne
    simp only [List.mem_filter, decide_eq_true_eq] at hb
    have hname : b.attname ≠ a.attname := fun he =>
      hne (PgCatalog.attribute_ext hb.1 ha (by rw [hb.2, hrel]) he)
    rw [List.filter_map]
    simp [Function.comp_def, PgAttribute.toColumn, hname]

theorem columnsOf_perm (cat : PgCatalog) (rel : ℕ) :
    (cat.columnsOf rel).Perm (cat.attributes.filter fun a => a.attrelid = rel) :=
  List.perm_insertionSort _ _

theorem columnsOf_sorted (cat : PgCatalog) (rel : ℕ) :
    (cat.columnsOf rel).Pairwise fun a b => a.attnum ≤ b.attnum := by
  have : Std.Total fun a b : PgAttribute => a.attnum ≤ b.attnum := ⟨fun _ _ => le_total _ _⟩
  have : IsTrans PgAttribute fun a b => a.attnum ≤ b.attnum := ⟨fun _ _ _ => le_trans⟩
  exact List.pairwise_insertionSort _ _

/-- `tablesIn` lists each column once, and the primary key columns as such, exactly when no
column of the schema is in two keys or in a key that shares its name with a primary key. -/
theorem tablesIn_columns_iff (h : Serves cat lt ask) :
    (∃ tables, tablesIn ask schema = .ok tables ∧ ListsColumns cat schema tables) ↔
      ∀ t ∈ cat.tables, t.2 = schema → ∀ a ∈ cat.attributes, a.attrelid = t.1.oid →
        cat.SingleKey t.1.oid a.attnum := by
  obtain ⟨tables, colRes, fkRes, hok, hnames, hcol, -, hread⟩ := tablesIn_spec h schema
  have hin : ∀ t ∈ cat.tables, t.2 = schema → t.1.relname ∈ tables.map Table.name := by
    intro t ht hs
    exact hnames.mem_iff.mpr (List.mem_map.mpr ⟨t, by simp [ht, hs], rfl⟩)
  constructor
  · rintro ⟨tables', hok', -, hcols⟩ t ht rfl a ha hrel
    obtain rfl : tables = tables' := by
      rw [hok] at hok'
      exact Except.ok.inj hok'
    obtain ⟨u, hu, hun⟩ := List.mem_map.mp (hin t ht rfl)
    obtain ⟨xs, hperm, -, hxs⟩ := read_columns ht (hin t ht rfl) hcol
    rw [← flags_eq_iff]
    have hlist := hcols t ht rfl u hu hun
    rw [(hread u hu).1, hun, hxs] at hlist
    have hall : ((cat.attributes.filter fun a => a.attrelid = t.1.oid).flatMap fun a =>
          (cat.flags t.1.oid a.attnum).map a.toColumn).Perm
        ((cat.attributes.filter fun a => a.attrelid = t.1.oid).flatMap fun a =>
          [decide (cat.isPrimaryColumn t.1.oid a.attnum)].map a.toColumn) := by
      have hrows := (hperm.map fun x => x.1.toColumn x.2).symm
      rw [hlist, List.map_flatMap] at hrows
      have hcols := (columnsOf_perm cat t.1.oid).map fun a =>
        a.toColumn (cat.isPrimaryColumn t.1.oid a.attnum)
      rw [List.map_eq_flatMap (l := cat.attributes.filter _)] at hcols
      simpa [Function.comp_def] using hrows.trans hcols
    have hone := hall.filter fun c => c.name = a.attname
    rw [filter_named ha hrel fun a => cat.flags t.1.oid a.attnum,
      filter_named ha hrel fun a => [decide (cat.isPrimaryColumn t.1.oid a.attnum)],
      List.map_singleton, List.perm_singleton] at hone
    simpa [PgAttribute.toColumn, Function.comp_def] using congrArg (List.map Column.isPrimaryKey) hone
  · intro hsingle
    refine ⟨tables, hok, hnames, ?_⟩
    rintro t ht rfl u hu hun
    obtain ⟨xs, hperm, hpair, hxs⟩ := read_columns ht (hin t ht rfl) hcol
    rw [(hread u hu).1, hun, hxs]
    have hflags : ((cat.attributes.filter fun a => a.attrelid = t.1.oid).flatMap fun a =>
          (cat.flags t.1.oid a.attnum).map fun pk => (a, pk)) =
        (cat.attributes.filter fun a => a.attrelid = t.1.oid).map fun a =>
          (a, decide (cat.isPrimaryColumn t.1.oid a.attnum)) := by
      rw [List.map_eq_flatMap]
      apply List.flatMap_congr
      intro a ha
      simp only [List.mem_filter, decide_eq_true_eq] at ha
      rw [flags_eq_iff.mpr (hsingle t ht rfl a ha.1 ha.2), List.map_singleton]
    rw [hflags] at hperm
    have hcols := (columnsOf_perm cat t.1.oid).map fun a =>
      (a, decide (cat.isPrimaryColumn t.1.oid a.attnum))
    have heq : xs = (cat.columnsOf t.1.oid).map fun a =>
        (a, decide (cat.isPrimaryColumn t.1.oid a.attnum)) := by
      refine List.Perm.eq_of_pairwise ?_ hpair (List.pairwise_map.mpr (columnsOf_sorted cat t.1.oid))
        (hperm.trans hcols.symm)
      intro x y hx hy hxy hyx
      obtain ⟨a, ha, rfl⟩ := List.mem_map.mp (hperm.mem_iff.mp hx)
      obtain ⟨b, hb, rfl⟩ := List.mem_map.mp (hcols.mem_iff.mp hy)
      simp only [List.mem_filter, decide_eq_true_eq] at ha hb
      rw [PgCatalog.attribute_ext_num ha.1 hb.1 (by rw [ha.2, hb.2]) (le_antisymm hxy hyx)]
    rw [heq, List.map_map]
    rfl

end Listing

/-- `p (i PRIMARY KEY)` and `c (i PRIMARY KEY REFERENCES p)` in the schema `s`. -/
def sharedKey : PgCatalog where
  namespaces := [⟨1, ['s']⟩]
  classes := [⟨10, ['p'], 1, .table⟩, ⟨11, ['c'], 1, .table⟩]
  attributes := [{ attrelid := 10, attnum := 1, attname := ['i'], isNullable := false },
    { attrelid := 11, attnum := 1, attname := ['i'], isNullable := false }]
  constraints := [{ conname := ['k'], contype := .primary, conrelid := 10, conkey := [1] },
    { conname := ['l'], contype := .primary, conrelid := 11, conkey := [1] },
    { conname := ['m'], contype := .foreign, conrelid := 11, conkey := [1]
      confrelid := 10, confkey := [1] }]
  namespace_oids := schema_oids
  namespace_names := schema_names
  class_oids := twoTables_oids
  class_names := twoTables_names
  class_namespace := twoTables_namespace
  attribute_nums := by decide
  attribute_names := by decide
  constraint_names := by decide
  constraint_class := by decide
  constraint_key := by decide
  key_columns := by decide
  foreign_class := by decide
  foreign_key := by decide
  foreign_length := by decide

/-- The same without the foreign key. -/
def plainKeys : PgCatalog :=
  { sharedKey with
    constraints := sharedKey.constraints.take 2
    constraint_names := by decide
    constraint_class := by decide
    constraint_key := by decide
    key_columns := by decide
    foreign_class := by decide
    foreign_key := by decide
    foreign_length := by decide }

theorem tablesIn_plainKeys : ∃ tables, tablesIn plainKeys.serve ['s'] = .ok tables ∧
    ListsColumns plainKeys ['s'] tables :=
  (tablesIn_columns_iff plainKeys.serves).mpr (by decide)

theorem tablesIn_sharedKey : ¬ ∃ tables, tablesIn sharedKey.serve ['s'] = .ok tables ∧
    ListsColumns sharedKey ['s'] tables := by
  rintro ⟨tables, hok, -, hcols⟩
  have hlen : (tablesIn sharedKey.serve ['s']).map (fun ts => ts.map fun t =>
      (t.name, t.columns.length)) = .ok [(['c'], 2), (['p'], 1)] := by
    decide
  rw [hok] at hlen
  have hlist : tables.map (fun t => (t.name, t.columns.length)) = [(['c'], 2), (['p'], 1)] :=
    Except.ok.inj hlen
  have hmem : (['c'], 2) ∈ tables.map fun t => (t.name, t.columns.length) := by
    simp [hlist]
  obtain ⟨u, hu, he⟩ := List.mem_map.mp hmem
  have hcol := hcols (⟨11, ['c'], 1, .table⟩, ['s']) (by decide) rfl u hu (congrArg Prod.fst he)
  have htwo : u.columns.length = 2 := congrArg Prod.snd he
  rw [hcol, List.length_map] at htwo
  exact absurd htwo (by decide)

end DearSql.Pg
