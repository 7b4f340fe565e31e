import DearSql.PgTables

/-! The foreign keys that `tablesIn` and `describeIn` read. The first pairs the columns of
a key by their places; the second joins three views by the name of the constraint, and so
pairs every column of every key of that name with every column such a key uses, as far as the
views show them to the role of the session. -/
namespace DearSql.Pg
open Joins

def quad (fk : ForeignKey) : Text × Text × Text × Text :=
  (fk.name, fk.sourceColumn, fk.targetTable, fk.targetColumn)

namespace PgCatalog
variable (cat : PgCatalog) (role : Role) (schema : Text)

/-- The entries a foreign key should have: one for each pair of its columns. -/
def keyPairs (k : PgConstraint) : List (Text × Text × Text × Text) :=
  (k.conkey.zip k.confkey).flatMap fun ij =>
    (cat.attributeAt k.conrelid ij.1).flatMap fun sa =>
    (cat.tableAt k.confrelid).flatMap fun tgt =>
    (cat.attributeAt k.confrelid ij.2).map fun ta =>
      (k.conname, sa.attname, tgt.1.relname, ta.attname)

def foreignKeysOf (rel : ℕ) : List PgConstraint :=
  cat.constraints.filter fun k => k.contype = .foreign ∧ k.conrelid = rel

def InSchema (rel : ℕ) : Prop := ∃ t ∈ cat.tables, t.1.oid = rel ∧ t.2 = schema

instance (rel : ℕ) : Decidable (cat.InSchema schema rel) := by
  unfold InSchema; infer_instance

/-- Foreign keys of the schema's tables stay in the schema. -/
def SchemaClosed : Prop :=
  ∀ k ∈ cat.constraints, k.contype = .foreign → cat.InSchema schema k.conrelid →
    cat.InSchema schema k.confrelid

instance : Decidable (cat.SchemaClosed schema) := by
  unfold SchemaClosed; infer_instance

/-- The names of the columns of a key. -/
def columnNames (rel : ℕ) (key : List ℕ) : List Text :=
  (key.flatMap (cat.attributeAt rel)).map PgAttribute.attname

/-- The columns that the role sees of the keys called `name` of tables of the schema. -/
def keyColumnsNamed (name : Text) : List Text :=
  (cat.constraints.filter fun k => k.isKey ∧ k.conname = name).flatMap fun k =>
    ((cat.tableAt k.conrelid).filter fun t => t.2 = schema).flatMap fun t =>
      (cat.columnNames k.conrelid k.conkey).filter fun c => role.seesColumn t.2 t.1.relname c

/-- The constraint uses a column of a table of the schema that the role owns. -/
def UsesOwned (k : PgConstraint) : Prop :=
  k.usedKey ≠ [] ∧ ∃ t ∈ cat.tables, t.1.oid = k.usedRel ∧ t.2 = schema ∧ role.owns t.2 t.1.relname

instance (k : PgConstraint) : Decidable (cat.UsesOwned role schema k) := by
  unfold UsesOwned; infer_instance

/-- The role sees a column of the table, without which `describeIn` stops, and its constraints. -/
def Described (t : PgClass × Text) : Prop :=
  (∃ a ∈ cat.attributes, a.attrelid = t.1.oid ∧ role.seesColumn t.2 t.1.relname a.attname) ∧
    role.seesConstraints t.2 t.1.relname

instance (t : PgClass × Text) : Decidable (cat.Described role t) :=
  inferInstanceAs (Decidable (_ ∧ _))

/-- The views show the role the one column of the foreign key `k` and the one it refers to,
and nothing else of that name in the schema. -/
structure ShownAlone (k : PgConstraint) : Prop where
  single : k.conkey.length = 1
  key : cat.keyColumnsNamed role schema k.conname = cat.columnNames k.conrelid k.conkey
  target : cat.UsesOwned role schema k
  free : ∀ k' ∈ cat.constraints, k'.conname = k.conname → k' ≠ k → ¬ cat.UsesOwned role schema k'

instance (k : PgConstraint) : Decidable (cat.ShownAlone role schema k) :=
  decidable_of_iff (k.conkey.length = 1 ∧
      cat.keyColumnsNamed role schema k.conname = cat.columnNames k.conrelid k.conkey ∧
      cat.UsesOwned role schema k ∧
      ∀ k' ∈ cat.constraints, k'.conname = k.conname → k' ≠ k → ¬ cat.UsesOwned role schema k')
    ⟨fun ⟨hone, hkey, ht, hfree⟩ => ⟨hone, hkey, ht, hfree⟩,
      fun ⟨hone, hkey, ht, hfree⟩ => ⟨hone, hkey, ht, hfree⟩⟩

/-- The rows of `key_column_usage` that the join finds for one name. -/
def keyUsageNamed (name : Text) : List UsageRow :=
  (cat.shownKeyUsage role).filter fun kcu => name = kcu.constraintName ∧ schema = kcu.tableSchema

/-- The same of `constraint_column_usage`. -/
def columnUsageNamed (name : Text) : List UsageRow :=
  (cat.shownColumnUsage role).filter fun ccu =>
    ccu.constraintName = name ∧ ccu.tableSchema = schema

/-- Those of them that the constraint `k` is behind. -/
def usedOf (name : Text) (k : PgConstraint) : List UsageRow :=
  (((cat.tableAt k.usedRel).flatMap fun r =>
    (cat.attributes.filter fun a => a.attrelid = k.usedRel ∧ a.attnum ∈ k.usedKey).map fun a =>
      (⟨k.conname, r.2, r.1.relname, a.attname⟩ : UsageRow)).filter fun ccu =>
    role.owns ccu.tableSchema ccu.tableName).filter fun ccu =>
    ccu.constraintName = name ∧ ccu.tableSchema = schema

/-- What the join makes of the foreign key `k`. -/
def joinPairs (k : PgConstraint) : List (Text × Text × Text × Text) :=
  (cat.keyUsageNamed role schema k.conname).flatMap fun kcu =>
    (cat.columnUsageNamed role schema k.conname).map fun ccu =>
      (k.conname, kcu.columnName, ccu.tableName, ccu.columnName)

end PgCatalog

section Usage
variable {cat : PgCatalog} {role : Role} {schema : Text} {k : PgConstraint} {t : PgClass × Text}

theorem mem_foreignKeysOf {rel : ℕ} : k ∈ cat.foreignKeysOf rel ↔
    k ∈ cat.constraints ∧ k.contype = .foreign ∧ k.conrelid = rel := by
  simp [PgCatalog.foreignKeysOf]

theorem isKey_of_foreign (h : k.contype = .foreign) : k.isKey = true := by
  simp [PgConstraint.isKey, h]

theorem usedRel_of_foreign (h : k.contype = .foreign) : k.usedRel = k.confrelid := by
  simp [PgConstraint.usedRel, h]

theorem usedKey_of_foreign (h : k.contype = .foreign) : k.usedKey = k.confkey := by
  simp [PgConstraint.usedKey, h]

section Columns
variable {rel : ℕ} {key : List ℕ}

theorem columnsAt_nums (h : ∀ i ∈ key, ∃ a ∈ cat.attributes, a.attrelid = rel ∧ a.attnum = i) :
    (key.flatMap (cat.attributeAt rel)).map PgAttribute.attnum = key := by
  have hone : ∀ i ∈ key, (cat.attributeAt rel i).map PgAttribute.attnum = [i] := by
    intro i hi
    obtain ⟨a, ha, hrel, hnum⟩ := h i hi
    rw [PgCatalog.attributeAt_eq ha hrel hnum, List.map_singleton, hnum]
  rw [List.map_flatMap, List.flatMap_congr hone, List.flatMap_singleton']

theorem columnNames_length (h : ∀ i ∈ key, ∃ a ∈ cat.attributes, a.attrelid = rel ∧ a.attnum = i) :
    (cat.columnNames rel key).length = key.length := by
  rw [PgCatalog.columnNames, List.length_map, ← List.length_map PgAttribute.attnum, columnsAt_nums h]

theorem columnNames_nodup (hnd : key.Nodup)
    (h : ∀ i ∈ key, ∃ a ∈ cat.attributes, a.attrelid = rel ∧ a.attnum = i) :
    (cat.columnNames rel key).Nodup := by
  refine List.Nodup.map_on ?_ (.of_map PgAttribute.attnum (by rwa [columnsAt_nums h]))
  intro a ha b hb hname
  simp only [PgCatalog.attributeAt, List.mem_flatMap, mem_having, Prod.mk.injEq] at ha hb
  obtain ⟨i, -, ha, hra, -⟩ := ha
  obtain ⟨j, -, hb, hrb, -⟩ := hb
  exact PgCatalog.attribute_ext ha hb (hra.trans hrb.symm) hname

end Columns

/-- The entries of a key, each with the columns of its place. -/
theorem keyPairs_columns (hk : k ∈ cat.constraints) (hf : k.contype = .foreign) :
    (cat.keyPairs k).map (fun q => q.2.1) = cat.columnNames k.conrelid k.conkey ∧
      (cat.keyPairs k).map (fun q => q.2.2.2) = cat.columnNames k.confrelid k.confkey := by
  obtain ⟨tgt, -, -, htgt⟩ := PgCatalog.exists_table (cat.foreign_class k hk hf)
  have hone : ∀ ij ∈ k.conkey.zip k.confkey, ∃ sa ta, cat.attributeAt k.conrelid ij.1 = [sa] ∧
      cat.attributeAt k.confrelid ij.2 = [ta] := by
    intro ij hij
    obtain ⟨sa, hsa, hsr, hsn⟩ := (cat.constraint_key k hk).2 ij.1 (List.of_mem_zip hij).1
    obtain ⟨ta, hta, htr, htn⟩ := (cat.foreign_key k hk hf).2 ij.2 (List.of_mem_zip hij).2
    exact ⟨sa, ta, PgCatalog.attributeAt_eq hsa hsr hsn, PgCatalog.attributeAt_eq hta htr htn⟩
  have hlen := (cat.foreign_length k hk hf).1
  have hfst : (k.conkey.zip k.confkey).map Prod.fst = k.conkey := List.map_fst_zip hlen.ge
  have hsnd : (k.conkey.zip k.confkey).map Prod.snd = k.confkey := List.map_snd_zip hlen.le
  constructor
  · rw [PgCatalog.keyPairs, PgCatalog.columnNames, List.map_flatMap, List.map_flatMap,
      ← hfst, List.flatMap_map, hfst]
    apply List.flatMap_congr
    intro ij hij
    obtain ⟨sa, ta, hsa, hta⟩ := hone ij hij
    simp [hsa, hta, htgt]
  · rw [PgCatalog.keyPairs, PgCatalog.columnNames, List.map_flatMap, List.map_flatMap,
      ← hsnd, List.flatMap_map, hsnd]
    apply List.flatMap_congr
    intro ij hij
    obtain ⟨sa, ta, hsa, hta⟩ := hone ij hij
    simp [hsa, hta, htgt]

theorem keyPairs_name (k : PgConstraint) : ∀ q ∈ cat.keyPairs k, q.1 = k.conname := by
  intro q hq
  simp only [PgCatalog.keyPairs, List.mem_flatMap, List.mem_map] at hq
  obtain ⟨_, -, _, -, _, -, _, -, rfl⟩ := hq
  rfl

theorem keyPairs_target (ht : t ∈ cat.tables) (ho : t.1.oid = k.confrelid) :
    ∀ q ∈ cat.keyPairs k, q.2.2.1 = t.1.relname := by
  intro q hq
  simp only [PgCatalog.keyPairs, PgCatalog.tableAt_eq ht ho, List.mem_flatMap, List.mem_map,
    List.mem_singleton] at hq
  obtain ⟨_, -, _, -, _, rfl, _, -, rfl⟩ := hq
  rfl

/-- The join finds the columns of the keys of that name. -/
theorem keyUsageNamed_columns (cat : PgCatalog) (role : Role) (schema name : Text) :
    (cat.keyUsageNamed role schema name).map UsageRow.columnName =
      cat.keyColumnsNamed role schema name := by
  have hkeys : (cat.constraints.filter fun k => k.isKey ∧ k.conname = name) =
      (cat.constraints.filter PgConstraint.isKey).filter fun k => k.conname = name := by
    rw [List.filter_filter]
    congr 1
    funext k
    cases hk : k.isKey <;> simp
  rw [PgCatalog.keyUsageNamed, PgCatalog.shownKeyUsage, PgCatalog.keyColumnUsage,
    List.filter_flatMap, List.filter_flatMap, List.map_flatMap, PgCatalog.keyColumnsNamed, hkeys,
    ← flatMap_if _ fun k : PgConstraint => decide (k.conname = name)]
  apply List.flatMap_congr
  intro k _
  rw [List.filter_flatMap, List.filter_flatMap, List.map_flatMap,
    ← flatMap_if _ fun t : PgClass × Text => decide (t.2 = schema)]
  have hrows : ∀ r : PgClass × Text, (k.conkey.flatMap fun i => (cat.attributeAt k.conrelid i).map
      fun a => (⟨k.conname, r.2, r.1.relname, a.attname⟩ : UsageRow)) =
      (cat.columnNames k.conrelid k.conkey).map fun c => ⟨k.conname, r.2, r.1.relname, c⟩ := by
    intro r
    simp [PgCatalog.columnNames, List.map_flatMap, Function.comp_def]
  by_cases hname : k.conname = name
  · rw [if_pos (decide_eq_true hname)]
    apply List.flatMap_congr
    intro r _
    rw [hrows, List.filter_map, List.filter_map, List.map_map]
    by_cases hs : r.2 = schema
    · simp [Function.comp_def, hname, hs]
    · simp [Function.comp_def, hs, Ne.symm hs]
  · rw [if_neg (by simpa using hname), List.flatMap_eq_nil_iff]
    intro r _
    rw [hrows, List.filter_map, List.filter_map, List.map_map]
    simp [Function.comp_def, Ne.symm hname]

theorem columnUsageNamed_eq (cat : PgCatalog) (role : Role) (schema name : Text) :
    cat.columnUsageNamed role schema name = cat.constraints.flatMap (cat.usedOf role schema name) := by
  rw [PgCatalog.columnUsageNamed, PgCatalog.shownColumnUsage, PgCatalog.constraintColumnUsage,
    List.filter_flatMap, List.filter_flatMap]
  rfl

theorem usedKey_columns (hk : k ∈ cat.constraints) : k.usedKey.Nodup ∧
    ∀ i ∈ k.usedKey, ∃ a ∈ cat.attributes, a.attrelid = k.usedRel ∧ a.attnum = i := by
  unfold PgConstraint.usedKey PgConstraint.usedRel
  split_ifs with hf
  · exact cat.foreign_key k hk hf
  · exact cat.constraint_key k hk

theorem usedOf_eq (ht : t ∈ cat.tables) (ho : t.1.oid = k.usedRel) (hs : t.2 = schema)
    (hown : role.owns t.2 t.1.relname) :
    cat.usedOf role schema k.conname k =
      (cat.attributes.filter fun a => a.attrelid = k.usedRel ∧ a.attnum ∈ k.usedKey).map fun a =>
        ⟨k.conname, t.2, t.1.relname, a.attname⟩ := by
  rw [PgCatalog.usedOf, PgCatalog.tableAt_eq ht ho, List.flatMap_singleton, List.filter_map,
    List.filter_map]
  simp [Function.comp_def, hs ▸ hown, hs]

/-- A constraint has rows among those named where it has that name and uses an owned table. -/
theorem usedOf_ne_nil_iff (hk : k ∈ cat.constraints) {name : Text} :
    cat.usedOf role schema name k ≠ [] ↔ k.conname = name ∧ cat.UsesOwned role schema k := by
  constructor
  · intro h
    obtain ⟨r, hr⟩ := List.exists_mem_of_ne_nil _ h
    simp only [PgCatalog.usedOf, List.mem_filter, List.mem_flatMap, List.mem_map,
      decide_eq_true_eq] at hr
    obtain ⟨⟨⟨t, ht, a, ⟨-, -, hi⟩, rfl⟩, hown⟩, hname, hs⟩ := hr
    simp only [PgCatalog.tableAt, mem_having] at ht
    exact ⟨hname, List.ne_nil_of_mem hi, t, ht.1, ht.2, hs, hown⟩
  · rintro ⟨rfl, hne, t, ht, ho, hs, hown⟩
    obtain ⟨i, hi⟩ := List.exists_mem_of_ne_nil _ hne
    obtain ⟨a, ha, hrel, rfl⟩ := (usedKey_columns hk).2 i hi
    rw [usedOf_eq ht ho hs hown]
    exact List.ne_nil_of_mem (List.mem_map_of_mem (List.mem_filter.mpr ⟨ha, by simp [hrel, hi]⟩))

/-- The one row of a used column. -/
theorem usedOf_single (hk : k ∈ cat.constraints) (hf : k.contype = .foreign)
    (hone : k.conkey.length = 1) (ht : t ∈ cat.tables) (ho : t.1.oid = k.confrelid)
    (hs : t.2 = schema) (hown : role.owns t.2 t.1.relname) :
    (cat.usedOf role schema k.conname k).map UsageRow.columnName =
      cat.columnNames k.confrelid k.confkey := by
  obtain ⟨j, hj⟩ := List.length_eq_one_iff.mp ((cat.foreign_length k hk hf).1.trans hone)
  obtain ⟨ta, hta, htr, htn⟩ := (cat.foreign_key k hk hf).2 j (by simp [hj])
  have hat := PgCatalog.attributeAt_eq hta htr htn
  have hused : (cat.attributes.filter fun a => a.attrelid = k.confrelid ∧ a.attnum ∈ [j]) =
      cat.attributeAt k.confrelid j := by
    simp [PgCatalog.attributeAt, having]
  rw [usedOf_eq ht (ho.trans (usedRel_of_foreign hf).symm) hs hown, usedRel_of_foreign hf,
    usedKey_of_foreign hf, hj, hused, PgCatalog.columnNames, List.flatMap_singleton, List.map_map]
  rfl

theorem joinPairs_columns (cat : PgCatalog) (role : Role) (schema : Text) (k : PgConstraint) :
    (cat.joinPairs role schema k).map (fun q => q.2.1) =
        (cat.keyUsageNamed role schema k.conname).flatMap (fun kcu =>
          (cat.columnUsageNamed role schema k.conname).map fun _ => kcu.columnName) ∧
      (cat.joinPairs role schema k).map (fun q => q.2.2.2) =
        (cat.keyUsageNamed role schema k.conname).flatMap (fun _ =>
          (cat.columnUsageNamed role schema k.conname).map UsageRow.columnName) := by
  simp [PgCatalog.joinPairs, List.map_flatMap, Function.comp_def]

theorem columnNames_ne_nil (hk : k ∈ cat.constraints) (hf : k.contype = .foreign) :
    cat.columnNames k.conrelid k.conkey ≠ [] := by
  rw [← List.length_pos_iff, columnNames_length (cat.constraint_key k hk).2, List.length_pos_iff]
  exact cat.key_columns k hk (isKey_of_foreign hf)

/-- The join makes of a key what it should only where it finds one row on each side. -/
theorem shownAlone_of_joinPairs (hk : k ∈ cat.constraints) (hf : k.contype = .foreign)
    (hs : cat.InSchema schema k.confrelid)
    (h : (cat.joinPairs role schema k).Perm (cat.keyPairs k)) : cat.ShownAlone role schema k := by
  obtain ⟨hsource, htarget⟩ := keyPairs_columns hk hf
  obtain ⟨hsource', htarget'⟩ := joinPairs_columns cat role schema k
  have hne : cat.joinPairs role schema k ≠ [] := by
    intro hnil
    rw [hnil] at h
    rw [h.nil_eq.symm, List.map_nil] at hsource
    exact columnNames_ne_nil hk hf hsource.symm
  have hrows : ∃ u v, cat.keyUsageNamed role schema k.conname = [u] ∧
      cat.columnUsageNamed role schema k.conname = [v] := by
    have hus : cat.keyUsageNamed role schema k.conname ≠ [] := fun hnil =>
      hne (by simp [PgCatalog.joinPairs, hnil])
    have hvs : cat.columnUsageNamed role schema k.conname ≠ [] := fun hnil =>
      hne (by simp [PgCatalog.joinPairs, hnil])
    have hv := length_le_one_of_nodup_left (hsource' ▸ (h.map _).nodup_iff.mpr
      (hsource ▸ columnNames_nodup (cat.constraint_key k hk).1 (cat.constraint_key k hk).2)) hus
    have hu := length_le_one_of_nodup_right (htarget' ▸ (h.map _).nodup_iff.mpr
      (htarget ▸ columnNames_nodup (cat.foreign_key k hk hf).1 (cat.foreign_key k hk hf).2)) hvs
    obtain ⟨u, hu⟩ := List.length_eq_one_iff.mp (hu.antisymm (List.length_pos_iff.mpr hus))
    obtain ⟨v, hv⟩ := List.length_eq_one_iff.mp (hv.antisymm (List.length_pos_iff.mpr hvs))
    exact ⟨u, v, hu, hv⟩
  obtain ⟨u, v, hu, hv⟩ := hrows
  have hpair : cat.keyPairs k = [(k.conname, u.columnName, v.tableName, v.columnName)] :=
    List.perm_singleton.mp (by simpa [PgCatalog.joinPairs, hu, hv] using h.symm)
  rw [hpair, List.map_singleton] at hsource
  have hsingle : k.conkey.length = 1 := by
    rw [← columnNames_length (cat.constraint_key k hk).2, ← hsource, List.length_singleton]
  have howned : cat.UsesOwned role schema k := by
    obtain ⟨tgt, htgt, ho, hts⟩ := hs
    have hname : v.tableName = tgt.1.relname :=
      keyPairs_target htgt ho _ (hpair ▸ List.mem_singleton_self _)
    have hmem : v ∈ cat.columnUsageNamed role schema k.conname := by simp [hv]
    simp only [PgCatalog.columnUsageNamed, PgCatalog.shownColumnUsage, List.mem_filter,
      decide_eq_true_eq] at hmem
    obtain ⟨⟨-, hown⟩, -, hvs⟩ := hmem
    refine ⟨?_, tgt, htgt, ho.trans (usedRel_of_foreign hf).symm, hts, ?_⟩
    · rw [usedKey_of_foreign hf, ← List.length_pos_iff, (cat.foreign_length k hk hf).1, hsingle]
      exact Nat.one_pos
    · rw [hts, ← hvs, ← hname]
      exact hown
  refine ⟨hsingle, ?_, howned, fun k' hk' hname hother howned' => ?_⟩
  · rw [← keyUsageNamed_columns, hu]
    exact hsource
  · -- both constraints have rows, and there is only one
    have hlen := length_add_le_flatMap (f := cat.usedOf role schema k.conname) hk hk' hother
    have hrow := List.length_pos_iff.mpr ((usedOf_ne_nil_iff hk).mpr ⟨rfl, howned⟩)
    have hrow' := List.length_pos_iff.mpr ((usedOf_ne_nil_iff hk').mpr ⟨hname, howned'⟩)
    rw [← columnUsageNamed_eq, hv, List.length_singleton] at hlen
    omega

/-- A key of one column that is shown alone is joined as it should be. -/
theorem joinPairs_eq (hk : k ∈ cat.constraints) (hf : k.contype = .foreign)
    (h : cat.ShownAlone role schema k) : cat.joinPairs role schema k = cat.keyPairs k := by
  obtain ⟨hsource, htarget⟩ := keyPairs_columns hk hf
  obtain ⟨-, tgt, htgt, ho, hts, hown⟩ := h.target
  rw [usedRel_of_foreign hf] at ho
  have hlen : (cat.columnNames k.conrelid k.conkey).length = 1 :=
    (columnNames_length (cat.constraint_key k hk).2).trans h.single
  obtain ⟨source, hs⟩ := List.length_eq_one_iff.mp hlen
  obtain ⟨u, hu, hus⟩ := List.map_eq_singleton_iff.mp
    ((keyUsageNamed_columns cat role schema k.conname).trans (h.key.trans hs))
  have hused : cat.columnUsageNamed role schema k.conname = cat.usedOf role schema k.conname k := by
    rw [columnUsageNamed_eq, flatMap_eq_of_only cat.constraints_nodup hk]
    intro k' hk' hne
    by_contra hrows
    obtain ⟨hname, howned⟩ := (usedOf_ne_nil_iff hk').mp hrows
    exact h.free k' hk' hname hne howned
  obtain ⟨q, hq, hqs⟩ := List.map_eq_singleton_iff.mp (hsource.trans hs)
  rw [hq, List.map_singleton] at htarget
  obtain ⟨v, hv, hvt⟩ := List.map_eq_singleton_iff.mp
    ((usedOf_single hk hf h.single htgt ho hts hown).trans htarget.symm)
  have hmem : q ∈ cat.keyPairs k := by simp [hq]
  have hvname : v.tableName = tgt.1.relname := by
    have hrow : v ∈ cat.usedOf role schema k.conname k := by simp [hv]
    rw [usedOf_eq htgt (ho.trans (usedRel_of_foreign hf).symm) hts hown] at hrow
    obtain ⟨a, -, rfl⟩ := List.mem_map.mp hrow
    rfl
  rw [PgCatalog.joinPairs, hused, hu, hv, hq, List.flatMap_singleton, List.map_singleton, hus, hvt,
    hvname, ← keyPairs_target htgt ho q hmem, ← hqs, ← keyPairs_name k q hmem]

end Usage

section Read
variable {cat : PgCatalog} {role : Role} {lt : Text → Text → Prop}
  {ask : CatalogQuery → QueryResult} {schema : Text} {t : PgClass × Text}

/-- The entry one row of the key query adds to the table `table`. -/
def pairOfRow (table : Text) (row : Row) : Option (Text × Text × Text × Text) :=
  (readTableForeignKey row).bind fun e => if e.1 = table then some (quad e.2) else none

theorem pushed_pairs (res : List Row) (table : Text) :
    (pushed (res.filterMap readTableForeignKey) table).map quad =
      res.filterMap (pairOfRow table) := by
  induction res with
  | nil => rfl
  | cons row res ih =>
    cases hr : readTableForeignKey row with
    | none => simp [pairOfRow, hr, ih]
    | some e =>
      by_cases he : e.1 = table
      · simp [pairOfRow, hr, he, pushed, ← ih]
      · simp [pairOfRow, hr, he, pushed, ← ih]

theorem tableForeignKeyRows_pairs (ht : t ∈ cat.tables) (hclosed : cat.SchemaClosed t.2)
    {names : List Text} (hname : t.1.relname ∈ names) :
    ((cat.tableForeignKeyRows t.2 names).map Prod.snd).filterMap (pairOfRow t.1.relname) =
      (cat.foreignKeysOf t.1.oid).flatMap cat.keyPairs := by
  have hkeys : cat.foreignKeysOf t.1.oid = (cat.constraints.filter fun k =>
      k.contype = .foreign).filter fun k => k.conrelid = t.1.oid := by
    simp [PgCatalog.foreignKeysOf, List.filter_filter, Bool.and_comm]
  have hpick := flatMap_if (cat.constraints.filter fun k => k.contype = .foreign)
    (fun k => decide (k.conrelid = t.1.oid)) cat.keyPairs
  simp only [decide_eq_true_eq] at hpick
  rw [PgCatalog.tableForeignKeyRows, List.map_flatMap, List.filterMap_flatMap, hkeys, ← hpick]
  apply List.flatMap_congr
  intro k hk
  simp only [List.mem_filter, decide_eq_true_eq] at hk
  obtain ⟨hk, hf⟩ := hk
  obtain ⟨t', ht', ho, -⟩ := PgCatalog.exists_table (cat.constraint_class k hk)
  obtain ⟨hr', -, n, hn, hne, hns⟩ := PgCatalog.mem_tables.mp ht'
  rw [having_eq cat.class_oids hr' ho, List.flatMap_singleton,
    having_eq cat.namespace_oids hn hne, List.flatMap_singleton]
  by_cases hrel : k.conrelid = t.1.oid
  · obtain rfl := eq_of_key cat.tables_oids ht ht' (by rw [ho, hrel])
    obtain ⟨tgt, htgt, hto, hts⟩ := hclosed k hk hf ⟨t, ht, ho, rfl⟩
    obtain ⟨hrt, -, n', hn', hne', hns'⟩ := PgCatalog.mem_tables.mp htgt
    obtain rfl := eq_of_key cat.namespace_names hn hn' (by rw [hns, hns', hts])
    obtain ⟨hlen, hmax⟩ := cat.foreign_length k hk hf
    have hnth : ∀ i, ((cat.attributeNth k.conrelid k.conkey i).flatMap fun sa =>
        (cat.attributeNth k.confrelid k.confkey i).flatMap fun ta =>
          [[t.1.relname, sa.attname, tgt.1.relname, ta.attname, k.conname]]) =
        k.conkey[i - 1]?.toList.flatMap fun x => k.confkey[i - 1]?.toList.flatMap fun y =>
          (cat.attributeAt k.conrelid x).flatMap fun sa =>
          (cat.attributeAt k.confrelid y).flatMap fun ta =>
            [[t.1.relname, sa.attname, tgt.1.relname, ta.attname, k.conname]] := by
      intro i
      unfold PgCatalog.attributeNth
      cases k.conkey[i - 1]? <;> cases k.confkey[i - 1]? <;> simp
    rw [if_pos hrel, having_eq cat.class_oids hrt hto, filter_range' hmax]
    simp only [hns, hname, and_self, if_true, hne ▸ hne', decide_true, List.filter_cons_of_pos,
      List.filter_nil, List.flatMap_singleton, List.map_flatMap, List.map_cons, List.map_nil, hnth]
    rw [flatMap_range' hlen, List.filterMap_flatMap, PgCatalog.keyPairs]
    apply List.flatMap_congr
    rintro ⟨i, j⟩ hij
    obtain ⟨sa, hsa, hsr, hsn⟩ := (cat.constraint_key k hk).2 i (List.of_mem_zip hij).1
    obtain ⟨ta, hta, htr, htn⟩ := (cat.foreign_key k hk hf).2 j (List.of_mem_zip hij).2
    simp [PgCatalog.attributeAt_eq hsa hsr hsn, PgCatalog.attributeAt_eq hta htr htn,
      PgCatalog.tableAt_eq htgt hto, pairOfRow, readTableForeignKey, quad]
  · rw [if_neg hrel, List.filterMap_eq_nil_iff]
    intro row hrow
    simp only [List.mem_map, List.mem_flatMap] at hrow
    obtain ⟨x, ⟨tgt, -, i, -, sa, -, ta, -, hx⟩, rfl⟩ := hrow
    split_ifs at hx with hin
    · obtain rfl := List.mem_singleton.mp hx
      have hne' : t'.1.relname ≠ t.1.relname := fun he =>
        hrel (by rw [← ho, PgCatalog.table_ext ht' ht (by rw [← hns, hin.1]) he])
      simp [pairOfRow, readTableForeignKey, hne']
    · simp at hx

theorem tableConstraints_foreign (ht : t ∈ cat.tables) :
    (cat.tableConstraints.filter fun tc => tc.constraintType = .foreign ∧
        tc.tableSchema = t.2 ∧ decide (tc.tableName = t.1.relname)) =
      (cat.foreignKeysOf t.1.oid).map fun k => ⟨k.conname, t.2, t.1.relname, .foreign⟩ := by
  rw [PgCatalog.tableConstraints, List.filter_flatMap, PgCatalog.foreignKeysOf, map_filter_eq]
  apply List.flatMap_congr
  intro k hk
  obtain ⟨t', ht', ho, hat⟩ := PgCatalog.exists_table (cat.constraint_class k hk)
  rw [hat, List.map_singleton]
  by_cases hrel : k.conrelid = t.1.oid
  · obtain rfl := eq_of_key cat.tables_oids ht ht' (by rw [ho, hrel])
    by_cases hf : k.contype = .foreign <;> simp [hf, hrel]
  · have hne : ¬ (t'.2 = t.2 ∧ t'.1.relname = t.1.relname) := fun he =>
      hrel (by rw [← ho, PgCatalog.table_ext ht' ht he.1 he.2])
    simp [hrel, hne]

/-- The rows of the key query are those of the table's keys, where the role is shown these. -/
theorem foreignKeyJoin_pairs (role : Role) (ht : t ∈ cat.tables) :
    (cat.foreignKeyJoin role t.2 fun n => n = t.1.relname).map (fun r =>
        (r.1.constraintName, r.2.1.columnName, r.2.2.tableName, r.2.2.columnName)) =
      if role.seesConstraints t.2 t.1.relname then
        (cat.foreignKeysOf t.1.oid).flatMap (cat.joinPairs role t.2) else [] := by
  rw [PgCatalog.foreignKeyJoin, PgCatalog.shownConstraints, List.filter_comm,
    tableConstraints_foreign ht, List.filter_map]
  simp only [Function.comp_def]
  split_ifs with hsees
  · simp only [hsees, List.filter_true, List.flatMap_map, List.map_flatMap]
    apply List.flatMap_congr
    intro k _
    simp [PgCatalog.joinPairs, Function.comp_def, PgCatalog.keyUsageNamed, PgCatalog.columnUsageNamed]
  · simp [hsees]

/-- What `describeIn` returns has the joined foreign keys if the role is shown the table. -/
theorem describeIn_spec (h : ServesRole cat role lt ask) (ht : t ∈ cat.tables) :
    ∃ d, describeIn ask t.2 t.1.relname = .ok d ∧ (d.foreignKeys.map quad).Perm
      (if cat.Described role t then (cat.foreignKeysOf t.1.oid).flatMap (cat.joinPairs role t.2)
        else []) := by
  obtain ⟨colRes, hc, hca⟩ := h.columns t.2 t.1.relname
  obtain ⟨pkRes, hp, -⟩ := h.primaryKey t.2 t.1.relname
  obtain ⟨ixRes, hi⟩ := h.indexes t.2 t.1.relname
  obtain ⟨fkRes, hf, hfa⟩ := h.foreignKeys t.2 t.1.relname
  have hcols := readColumns_eq_nil_iff ht hca
  by_cases hempty : colRes.filterMap readColumn = []
  · have hnot : ¬ cat.Described role t := by
      rintro ⟨⟨a, ha, hrel, hsees⟩, -⟩
      exact Bool.noConfusion (hsees.symm.trans (hcols.mp hempty a ha hrel))
    refine ⟨{ name := t.1.relname, schema := t.2, fullName := t.2 ++ '.' :: t.1.relname }, ?_, ?_⟩
    · simp [describeIn, rowsOf_gives hc, hempty, bind, Except.bind, pure, Except.pure]
    · simp [hnot]
  · have hcolumn : ∃ a ∈ cat.attributes, a.attrelid = t.1.oid ∧
        role.seesColumn t.2 t.1.relname a.attname := by
      rw [hcols] at hempty
      push Not at hempty
      obtain ⟨a, ha, hrel, hsees⟩ := hempty
      exact ⟨a, ha, hrel, by simpa using hsees⟩
    have hrun : (describeIn ask t.2 t.1.relname).map Table.foreignKeys =
        .ok (fkRes.filterMap readForeignKey) := by
      simp [describeIn, rowsOf_gives hc, rowsOf_gives hp, rowsOf_gives hi, rowsOf_gives hf, hempty,
        bind, Except.bind, pure, Except.pure, Except.map]
    cases hd : describeIn ask t.2 t.1.relname with
    | error e =>
      rw [hd] at hrun
      cases hrun
    | ok d =>
      rw [hd] at hrun
      have hfk : d.foreignKeys = fkRes.filterMap readForeignKey := Except.ok.inj hrun
      refine ⟨d, rfl, ?_⟩
      have hpairs := (hfa.filterMap readForeignKey).map quad
      rw [PgCatalog.foreignKeyRows, List.filterMap_map] at hpairs
      simp only [Function.comp_def, readForeignKey, List.filterMap_eq_map', List.map_map,
        quad] at hpairs
      rw [← hfk] at hpairs
      have hdesc : cat.Described role t ↔ role.seesConstraints t.2 t.1.relname = true :=
        and_iff_right hcolumn
      simp only [hdesc]
      exact hpairs.trans (.of_eq (foreignKeyJoin_pairs role ht))

/-- A table has one foreign key of each name. -/
theorem filter_pairs {rel : ℕ} {k : PgConstraint} (hk : k ∈ cat.foreignKeysOf rel)
    {f : PgConstraint → List (Text × Text × Text × Text)}
    (hf : ∀ k, ∀ q ∈ f k, q.1 = k.conname) :
    ((cat.foreignKeysOf rel).flatMap f).filter (fun q => q.1 = k.conname) = f k := by
  obtain ⟨hkc, -, hrel⟩ := mem_foreignKeysOf.mp hk
  have hnd : (cat.foreignKeysOf rel).Nodup := cat.constraints_nodup.filter _
  rw [List.filter_flatMap, flatMap_eq_of_only hnd hk]
  · exact List.filter_eq_self.mpr fun q hq => by simpa using hf k q hq
  · intro k' hk' hne
    obtain ⟨hkc', -, hrel'⟩ := mem_foreignKeysOf.mp hk'
    refine List.filter_eq_nil_iff.mpr fun q hq => ?_
    have hname : k'.conname ≠ k.conname := fun he =>
      hne (eq_of_key cat.constraint_names hkc' hkc (by rw [hrel, hrel', he]))
    simpa [hf k' q hq] using hname

theorem joinPairs_name (k : PgConstraint) :
    ∀ q ∈ cat.joinPairs role schema k, q.1 = k.conname := by
  intro q hq
  simp only [PgCatalog.joinPairs, List.mem_flatMap, List.mem_map] at hq
  obtain ⟨_, -, _, -, rfl⟩ := hq
  rfl

/-- The two readers agree on the foreign keys of a table, and give one entry for each pair
of columns, exactly when the role is shown the table and each key has one column and is shown
alone under its name. -/
theorem describeIn_foreignKeys_iff (h : ServesRole cat role lt ask)
    (hclosed : cat.SchemaClosed schema) (ht : t ∈ cat.tables) (hs : t.2 = schema) :
    (∃ tables, ∃ u ∈ tables, ∃ d, tablesIn ask schema = .ok tables ∧ u.name = t.1.relname ∧
        describeIn ask schema t.1.relname = .ok d ∧
        (d.foreignKeys.map quad).Perm (u.foreignKeys.map quad) ∧
        (u.foreignKeys.map quad).Perm ((cat.foreignKeysOf t.1.oid).flatMap cat.keyPairs)) ↔
      ∀ k ∈ cat.foreignKeysOf t.1.oid, cat.Described role t ∧ cat.ShownAlone role schema k := by
  subst hs
  obtain ⟨tables, colRes, fkRes, hok, hnames, -, hfk, hread⟩ := tablesIn_spec h t.2
  obtain ⟨d, hd, hdp⟩ := describeIn_spec h ht
  have hin : t.1.relname ∈ tables.map Table.name :=
    hnames.mem_iff.mpr (List.mem_map.mpr ⟨t, by simp [ht], rfl⟩)
  constructor
  · rintro ⟨tables', u, -, d', -, -, hd', hdu, hup⟩ k hk
    obtain rfl : d = d' := Except.ok.inj (hd.symm.trans hd')
    obtain ⟨hkc, hkf, hrel⟩ := mem_foreignKeysOf.mp hk
    have hall := (hdp.symm.trans (hdu.trans hup)).filter fun q => q.1 = k.conname
    rw [filter_pairs hk keyPairs_name] at hall
    by_cases hdesc : cat.Described role t
    · rw [if_pos hdesc, filter_pairs hk joinPairs_name] at hall
      exact ⟨hdesc, shownAlone_of_joinPairs hkc hkf (hclosed k hkc hkf ⟨t, ht, hrel.symm, rfl⟩) hall⟩
    · rw [if_neg hdesc] at hall
      have hsource := (keyPairs_columns hkc hkf).1
      rw [show cat.keyPairs k = [] from hall.nil_eq.symm] at hsource
      exact absurd hsource.symm (columnNames_ne_nil hkc hkf)
  · intro hshown
    obtain ⟨u, hu, hun⟩ := List.mem_map.mp hin
    have hup : (u.foreignKeys.map quad).Perm
        ((cat.foreignKeysOf t.1.oid).flatMap cat.keyPairs) := by
      rw [(hread u hu).2, hun, pushed_pairs, ← tableForeignKeyRows_pairs ht hclosed hin]
      exact hfk.perm.filterMap _
    have hjoin : (if cat.Described role t then
          (cat.foreignKeysOf t.1.oid).flatMap (cat.joinPairs role t.2) else []) =
        (cat.foreignKeysOf t.1.oid).flatMap cat.keyPairs := by
      split_ifs with hdesc
      · apply List.flatMap_congr
        intro k hk
        obtain ⟨hkc, hkf, -⟩ := mem_foreignKeysOf.mp hk
        exact joinPairs_eq hkc hkf (hshown k hk).2
      · symm
        rw [List.flatMap_eq_nil_iff]
        exact fun k hk => absurd (hshown k hk).1 hdesc
    exact ⟨tables, u, hu, d, hok, hun, hd, hdp.trans (hjoin ▸ hup.symm), hup⟩

end Read

/-- `p (a, b)` with a key over both columns and `c (x, y)` with a foreign key `f` from
`(y, x)` to `(a, b)`. -/
def pairedKey : PgCatalog where
  namespaces := [⟨1, ['s']⟩]
  classes := [⟨10, ['p'], 1, .table⟩, ⟨11, ['c'], 1, .table⟩]
  attributes := [{ attrelid := 10, attnum := 1, attname := ['a'] },
    { attrelid := 10, attnum := 2, attname := ['b'] },
    { attrelid := 11, attnum := 1, attname := ['x'] },
    { attrelid := 11, attnum := 2, attname := ['y'] }]
  constraints := [{ conname := ['k'], contype := .primary, conrelid := 10, conkey := [1, 2] },
    { conname := ['f'], contype := .foreign, conrelid := 11, conkey := [2, 1]
      confrelid := 10, confkey := [1, 2] }]
  namespace_oids := schema_oids
  namespace_names := schema_names
  class_oids := twoTables_oids
  class_names := twoTables_names
  class_namespace := twoTables_namespace
  attribute_nums := by decide
  attribute_names := by decide
  constraint_names := by decide
  constraint_class := by decide
  constraint_key := by decide
  key_columns := by decide
  foreign_class := by decide
  foreign_key := by decide
  foreign_length := by decide

/-- The same tables with a key and a foreign key of one column each. -/
def singleColumnKey : PgCatalog :=
  { pairedKey with
    constraints := [{ conname := ['k'], contype := .primary, conrelid := 10, conkey := [1] },
      { conname := ['f'], contype := .foreign, conrelid := 11, conkey := [2]
        confrelid := 10, confkey := [1] }]
    constraint_names := by decide
    constraint_class := by decide
    constraint_key := by decide
    key_columns := by decide
    foreign_class := by decide
    foreign_key := by decide
    foreign_length := by decide }

theorem foreignKeys_singleColumnKey :
    ∃ tables, ∃ u ∈ tables, ∃ d, tablesIn singleColumnKey.serve ['s'] = .ok tables ∧
      u.name = ['c'] ∧ describeIn singleColumnKey.serve ['s'] ['c'] = .ok d ∧
      (d.foreignKeys.map quad).Perm (u.foreignKeys.map quad) ∧
      (u.foreignKeys.map quad).Perm
        ((singleColumnKey.foreignKeysOf 11).flatMap singleColumnKey.keyPairs) :=
  (describeIn_foreignKeys_iff (t := (⟨11, ['c'], 1, .table⟩, ['s'])) singleColumnKey.serves
    (by decide) (by decide) rfl).mpr (by decide)

/-- Two columns are described as four pairs. -/
theorem foreignKeys_pairedKey :
    ¬ ∃ tables, ∃ u ∈ tables, ∃ d, tablesIn pairedKey.serve ['s'] = .ok tables ∧
      u.name = ['c'] ∧ describeIn pairedKey.serve ['s'] ['c'] = .ok d ∧
      (d.foreignKeys.map quad).Perm (u.foreignKeys.map quad) ∧
      (u.foreignKeys.map quad).Perm ((pairedKey.foreignKeysOf 11).flatMap pairedKey.keyPairs) := by
  rintro ⟨tables, u, -, d, -, -, hd, hdu, hup⟩
  have hrun : (describeIn pairedKey.serve ['s'] ['c']).map (fun d => d.foreignKeys.length) =
      .ok 4 := by
    decide
  rw [hd] at hrun
  have hfour : d.foreignKeys.length = 4 := Except.ok.inj hrun
  have hlen := (hdu.trans hup).length_eq
  rw [List.length_map, hfour] at hlen
  exact absurd hlen (by decide)

/-- A role that may read every column and nothing more. -/
def Role.reader : Role := { owns := fun _ _ => false, uses := fun _ _ _ => true }

-- it is listed the key of `c` and described none
example : (tablesIn (singleColumnKey.serveRole .reader) ['s']).map (fun ts => ts.map fun t =>
      (t.name, t.foreignKeys.length)) = .ok [(['c'], 1), (['p'], 0)] ∧
    (describeIn (singleColumnKey.serveRole .reader) ['s'] ['c']).map
      (fun d => d.foreignKeys.length) = .ok 0 := by
  decide

end DearSql.Pg
