import DearSql.IndexRows

/-! The indexes that `describeIn` and `describeTableInSchema` read. PostgreSQL's rows come in the
order of the table's columns and include every column of `indkey`; MSSQL's come in key order, in
front of which stand the columns that are only included, whose `key_ordinal` is 0. -/
namespace DearSql
open Joins

namespace Builder
variable {b : Builder} {t : Table} {idx : Index}

/-- How `tableDdl` prints an index. -/
def ddlIndex (b : Builder) (qualified : Text) (idx : Index) : Text :=
  if b.ddlIndexInline idx then b.ddlIndexLine idx else b.ddlIndexAfter qualified idx

theorem ddlIndexLine_mem (h : idx ∈ t.indexes.filter ddlIndexKept)
    (hin : b.ddlIndexInline idx = true) : b.ddlIndexLine idx ∈ b.ddlLines t := by
  rw [ddlLines, List.mem_append, List.mem_append]
  exact .inl (.inr (List.mem_map_of_mem (List.mem_filter.mpr ⟨h, hin⟩)))

theorem ddlIndexAfter_within {q : Text} (h : idx ∈ t.indexes.filter ddlIndexKept)
    (hin : b.ddlIndexInline idx = false) : b.ddlIndexAfter q idx <:+:
      ((t.indexes.filter ddlIndexKept).filter fun i => !b.ddlIndexInline i).flatMap
        fun i => "\n".toList ++ b.ddlIndexAfter q i := by
  obtain ⟨pre, post, hs⟩ := List.append_of_mem (List.mem_filter.mpr ⟨h, by rw [hin]; rfl⟩ :
    idx ∈ (t.indexes.filter ddlIndexKept).filter fun i => !b.ddlIndexInline i)
  rw [hs, List.flatMap_append, List.flatMap_cons]
  exact ((List.suffix_append "\n".toList _).isInfix.trans (List.prefix_append _ _).isInfix).trans
    (List.suffix_append _ _).isInfix

theorem ddlIndex_within (hmem : idx ∈ t.indexes) (hk : ddlIndexKept idx = true) (schema : Text) :
    b.ddlIndex (b.qualifiedRef schema t.name) idx <:+: b.tableDdl t schema := by
  have hkept : idx ∈ t.indexes.filter ddlIndexKept := List.mem_filter.mpr ⟨hmem, hk⟩
  rw [ddlIndex]
  unfold tableDdl
  cases hin : b.ddlIndexInline idx with
  | true =>
    rw [if_pos rfl]
    exact (KeyClauses.line_in_joinLines (ddlIndexLine_mem hkept hin)).trans
      ((List.infix_append _ _ _).trans (List.prefix_append _ _).isInfix)
  | false =>
    rw [if_neg Bool.false_ne_true]
    exact (ddlIndexAfter_within hkept hin).trans (List.suffix_append _ _).isInfix

end Builder

/-- The description `d` has the index as it is and no other of its name, and its DDL creates it
so. -/
def Described (b : Builder) (d : Table) (idx : Index) : Prop :=
  d.indexes.filter (fun i => i.name = idx.name) = [idx] ∧
    ∀ schema, b.ddlIndex (b.qualifiedRef schema d.name) idx <:+: b.tableDdl d schema

section Described
variable {rows : List IndexRow} {d : Table} {b : Builder} {name : Text} {key : List Text}
  {unique : Bool}

/-- An index is described as it is when its rows show the key columns. -/
theorem described_iff (h : Collected rows d.indexes) (hkey : key ≠ [])
    (hu : ∀ r ∈ rows, r.name = name → r.unique = unique) :
    Described b d { name, columns := key, isUnique := unique } ↔ columnsOf rows name = key := by
  by_cases hr : ∃ r ∈ rows, r.name = name
  · obtain ⟨r, hr, rfl⟩ := hr
    have hflag := hu r hr rfl
    have hone := h.filter_eq hr fun q hq hn => (hu q hq hn).trans hflag.symm
    rw [Described, hone, hflag]
    constructor
    · rintro ⟨he, -⟩
      exact congrArg Index.columns (List.cons.inj he).1
    · rintro rfl
      refine ⟨rfl, Builder.ddlIndex_within ?_ ?_⟩
      · have hmem : _ ∈ d.indexes.filter fun i => i.name = r.name :=
          hone ▸ List.mem_singleton_self _
        rw [← hflag]
        exact (List.mem_filter.mp hmem).1
      · simpa [Builder.ddlIndexKept] using hkey
  · have hcols : columnsOf rows name = [] := by
      rw [columnsOf, List.map_eq_nil_iff, List.filter_eq_nil_iff]
      exact fun r hrows hn => hr ⟨r, hrows, of_decide_eq_true hn⟩
    rw [hcols]
    refine iff_of_false ?_ hkey.symm
    rintro ⟨he, -⟩
    have hmem := List.mem_filter.mp (he ▸ List.mem_singleton_self _)
    obtain ⟨r, hrows, hi⟩ := h.only _ hmem.1
    exact hr ⟨r, hrows, (congrArg Index.name hi).symm⟩

end Described

namespace Pg
open Builder (PostgreSQL)

/-- A row of `pg_index` with the name of the index; `indkey` has the key columns first. -/
structure PgIndex where
  relname : Text
  indrelid : ℕ
  indkey : List ℕ
  indnkeyatts : ℕ
  indisunique : Bool := false
  indisprimary : Bool := false
  deriving DecidableEq

def PgIndex.key (i : PgIndex) : List ℕ := i.indkey.take i.indnkeyatts

namespace PgCatalog
variable (cat : PgCatalog)

/-- The key columns in key order. -/
def keyColumns (i : PgIndex) : List PgAttribute := i.key.flatMap (cat.attributeAt i.indrelid)

/-- The index as it is. -/
def index (i : PgIndex) : Index :=
  { name := i.relname, isUnique := i.indisunique
    columns := (cat.keyColumns i).map PgAttribute.attname }

end PgCatalog

/-- The indexes on plain columns of the tables of a catalog. -/
structure PgIndexes (cat : PgCatalog) where
  indexes : List PgIndex
  names : (indexes.map fun i => (i.indrelid, i.relname)).Nodup
  plain : ∀ i ∈ indexes, ∀ n ∈ i.indkey,
    ∃ a ∈ cat.attributes, a.attrelid = i.indrelid ∧ a.attnum = n
  keyed : ∀ i ∈ indexes, i.key ≠ []

namespace PgIndexes
variable {cat : PgCatalog} (ixs : PgIndexes cat)

/-- The joins of the index query. -/
def indexColumns (schema table : Text) : List (PgIndex × PgAttribute) :=
  (cat.tables.filter fun t =>
      t.1.relkind = .table ∧ t.2 = schema ∧ t.1.relname = table).flatMap fun t =>
    (ixs.indexes.filter fun i => i.indrelid = t.1.oid ∧ !i.indisprimary).flatMap fun i =>
      (cat.attributes.filter fun a => a.attrelid = t.1.oid ∧ a.attnum ∈ i.indkey).map fun a => (i, a)

def indexRow (p : PgIndex × PgAttribute) : IndexRow := ⟨p.1.relname, p.2.attname, p.1.indisunique⟩

/-- `ORDER BY i.relname, a.attnum`. -/
def indexRows (schema table : Text) : List ((Text × ℕ) × Row) :=
  (ixs.indexColumns schema table).map fun p =>
    ((p.1.relname, p.2.attnum), indexCells (indexRow p))

end PgIndexes

structure ServesIndexes {cat : PgCatalog} (ixs : PgIndexes cat) (lt : Text → Text → Prop)
    (ask : CatalogQuery → QueryResult) : Prop extends Serves cat lt ask where
  index_rows : ∀ schema table, ∃ res, Gives (ask (.indexes schema table)) res ∧
    Answers (Prod.Lex lt (· < ·)) (ixs.indexRows schema table) res

section Spec
variable {cat : PgCatalog} {ixs : PgIndexes cat} {lt : Text → Text → Prop}
  {ask : CatalogQuery → QueryResult} {t : PgClass × Text} {i : PgIndex}

theorem tables_named (ht : t ∈ cat.tables) :
    cat.tables.filter (fun t' =>
        t'.1.relkind = .table ∧ t'.2 = t.2 ∧ t'.1.relname = t.1.relname) =
      if t.1.relkind = .table then [t] else [] := by
  have hnd : (cat.tables.map id).Nodup := by
    rw [List.map_id]
    exact .of_map _ cat.tables_oids
  split_ifs with hk
  · rw [← having_eq hnd ht (rfl : id t = t), having]
    refine List.filter_congr fun t' ht' => decide_eq_decide.mpr ⟨?_, ?_⟩
    · rintro ⟨-, hs, hn⟩
      exact cat.table_ext ht' ht hs hn
    · rintro rfl
      exact ⟨hk, rfl, rfl⟩
  · refine List.filter_eq_nil_iff.mpr fun t' ht' hc => hk ?_
    obtain ⟨hk', hs, hn⟩ := of_decide_eq_true hc
    rw [← cat.table_ext ht' ht hs hn]
    exact hk'

theorem indexColumns_named (ht : t ∈ cat.tables) (hk : t.1.relkind = .table) (hi : i ∈ ixs.indexes)
    (hrel : i.indrelid = t.1.oid) (hp : i.indisprimary = false) :
    (ixs.indexColumns t.2 t.1.relname).filter (fun p => p.1.relname = i.relname) =
      (cat.attributes.filter fun a => a.attrelid = i.indrelid ∧ a.attnum ∈ i.indkey).map
        fun a => (i, a) := by
  have hnd : ((ixs.indexes.filter fun i => i.indrelid = t.1.oid ∧ !i.indisprimary).map
      PgIndex.relname).Nodup := by
    refine .map_on (fun j hj k hk hname => ?_) (.filter _ (.of_map _ ixs.names))
    obtain ⟨hj, hcj⟩ := List.mem_filter.mp hj
    obtain ⟨hk, hck⟩ := List.mem_filter.mp hk
    refine eq_of_key ixs.names hj hk (Prod.ext ?_ hname)
    exact (of_decide_eq_true hcj).1.trans (of_decide_eq_true hck).1.symm
  rw [PgIndexes.indexColumns, tables_named ht, if_pos hk, List.flatMap_singleton,
    filter_joined hnd (List.mem_filter.mpr ⟨hi, by simp [hrel, hp]⟩), hrel]

theorem indexColumns_other (ht : t ∈ cat.tables) (hk : t.1.relkind ≠ .table) :
    ixs.indexColumns t.2 t.1.relname = [] := by
  rw [PgIndexes.indexColumns, tables_named ht, if_neg hk]
  rfl

theorem map_keyColumns (hi : i ∈ ixs.indexes) : (cat.keyColumns i).map PgAttribute.attnum = i.key := by
  have hone : ∀ n ∈ i.key, (cat.attributeAt i.indrelid n).map PgAttribute.attnum = [n] := by
    intro n hn
    obtain ⟨a, ha, hrel, hnum⟩ := ixs.plain i hi n (List.mem_of_mem_take hn)
    rw [cat.attributeAt_eq ha hrel hnum, List.map_singleton, hnum]
  rw [PgCatalog.keyColumns, List.map_flatMap, List.flatMap_congr hone, List.flatMap_singleton']

theorem mem_keyColumns {a : PgAttribute} : a ∈ cat.keyColumns i ↔
    a ∈ cat.attributes ∧ a.attrelid = i.indrelid ∧ a.attnum ∈ i.key := by
  rw [PgCatalog.keyColumns, List.mem_flatMap]
  simp only [PgCatalog.attributeAt, mem_having, Prod.mk.injEq]
  constructor
  · rintro ⟨n, hn, ha, hrel, rfl⟩
    exact ⟨ha, hrel, hn⟩
  · rintro ⟨ha, hrel, hn⟩
    exact ⟨_, hn, ha, hrel, rfl⟩

/-- The columns of `indkey` in the order of the table are the key columns in key order. -/
theorem tableOrdered_iff {zs : List PgAttribute} (hi : i ∈ ixs.indexes)
    (hperm : zs.Perm
      (cat.attributes.filter fun a => a.attrelid = i.indrelid ∧ a.attnum ∈ i.indkey))
    (hs : zs.Pairwise fun a b => a.attnum ≤ b.attnum) :
    zs.map PgAttribute.attname = (cat.keyColumns i).map PgAttribute.attname ↔
      i.key.Pairwise (· < ·) ∧ i.indkey ⊆ i.key := by
  have hmem {a : PgAttribute} : a ∈ zs ↔
      a ∈ cat.attributes ∧ a.attrelid = i.indrelid ∧ a.attnum ∈ i.indkey := by
    rw [hperm.mem_iff, List.mem_filter, decide_eq_true_eq]
  have hnd : zs.Nodup := hperm.nodup_iff.mpr (.filter _ (.of_map _ cat.attribute_nums))
  have hext {a b : PgAttribute} (ha : a ∈ zs) (hb : b ∈ zs) (h : a.attnum = b.attnum) : a = b :=
    cat.attribute_ext_num (hmem.mp ha).1 (hmem.mp hb).1
      ((hmem.mp ha).2.1.trans (hmem.mp hb).2.1.symm) h
  constructor
  · intro h
    have heq : zs = cat.keyColumns i := by
      refine map_inj_on (fun a ha b hb hn => ?_) h
      have hb' := mem_keyColumns.mp hb
      exact cat.attribute_ext (hmem.mp ha).1 hb'.1 ((hmem.mp ha).2.1.trans hb'.2.1.symm) hn
    constructor
    · rw [← map_keyColumns hi, ← heq, List.pairwise_map]
      refine (hs.and hnd).imp_of_mem fun ha hb hab => ?_
      exact lt_of_le_of_ne hab.1 fun he => hab.2 (hext ha hb he)
    · intro n hn
      obtain ⟨a, ha, hrel, rfl⟩ := ixs.plain i hi n hn
      have hk := hmem.mpr ⟨ha, hrel, hn⟩
      rw [heq] at hk
      exact (mem_keyColumns.mp hk).2.2
  · rintro ⟨hlt, hsub⟩
    rw [← map_keyColumns hi, List.pairwise_map] at hlt
    have hnd' : (cat.keyColumns i).Nodup := by
      refine hlt.imp fun h => ?_
      rintro rfl
      exact lt_irrefl _ h
    have hperm' : zs.Perm (cat.keyColumns i) := by
      refine (List.perm_ext_iff_of_nodup hnd hnd').mpr fun a => ?_
      rw [hmem, mem_keyColumns]
      exact ⟨fun h => ⟨h.1, h.2.1, hsub h.2.2⟩, fun h => ⟨h.1, h.2.1, List.mem_of_mem_take h.2.2⟩⟩
    have heq : zs = cat.keyColumns i :=
      hperm'.eq_of_pairwise (fun a b ha hb hab hba => hext ha (hperm'.mem_iff.mpr hb) (by omega)) hs
        (hlt.imp fun h => h.le)
    rw [heq]

/-- `describeIn` collects the rows of the index query. -/
theorem describeIn_collected (h : ServesIndexes ixs lt ask) (ht : t ∈ cat.tables)
    (hcol : ∃ a ∈ cat.attributes, a.attrelid = t.1.oid) :
    ∃ (d : Table) (ys : List (PgIndex × PgAttribute)), describeIn ask t.2 t.1.relname = .ok d ∧
      Collected (ys.map PgIndexes.indexRow) d.indexes ∧
      ys.Perm (ixs.indexColumns t.2 t.1.relname) ∧
      ys.Pairwise fun x y =>
        ¬Prod.Lex lt (· < ·) (y.1.relname, y.2.attnum) (x.1.relname, x.2.attnum) := by
  obtain ⟨colRes, hc, hca⟩ := h.columns t.2 t.1.relname
  obtain ⟨pkRes, hp, -⟩ := h.primaryKey t.2 t.1.relname
  obtain ⟨ixRes, hx, hxa⟩ := h.index_rows t.2 t.1.relname
  obtain ⟨fkRes, hf, -⟩ := h.foreignKeys t.2 t.1.relname
  obtain ⟨ys, hys, hsort, rfl⟩ := hxa.lift
  have hcells : (ys.map fun p => indexCells (PgIndexes.indexRow p)).foldl addIndexRow [] =
      (ys.map PgIndexes.indexRow).foldl IndexRow.addTo [] := by
    rw [← foldl_addIndexRow, List.map_map]
    rfl
  obtain ⟨a, ha, hrel⟩ := hcol
  have hne : colRes.filterMap readColumn ≠ [] := fun hnil =>
    Bool.noConfusion ((readColumns_eq_nil_iff ht hca).mp hnil a ha hrel)
  have hrun : (describeIn ask t.2 t.1.relname).map Table.indexes =
      .ok ((ys.map PgIndexes.indexRow).foldl IndexRow.addTo []) := by
    simp [describeIn, rowsOf_gives hc, rowsOf_gives hp, rowsOf_gives hx, rowsOf_gives hf, hne,
      hcells, bind, Except.bind, pure, Except.pure, Except.map]
  cases hd : describeIn ask t.2 t.1.relname with
  | error e =>
    rw [hd] at hrun
    cases hrun
  | ok d =>
    rw [hd] at hrun
    refine ⟨d, ys, rfl, ?_, hys, hsort⟩
    rw [show d.indexes = _ from Except.ok.inj hrun]
    exact collected_foldl _

/-- A server that compares texts by their bytes. -/
def PgIndexes.serve (ixs : PgIndexes cat) : CatalogQuery → QueryResult
  | .indexes schema table => reply (@sorted (Text ×ₗ ℕ) Row _ (ixs.indexRows schema table))
  | q => cat.serve q

theorem PgIndexes.serves (ixs : PgIndexes cat) : ServesIndexes ixs (· < ·) ixs.serve where
  tableNames := cat.serves.tableNames
  tableColumns := cat.serves.tableColumns
  tableForeignKeys := cat.serves.tableForeignKeys
  columns := cat.serves.columns
  primaryKey := cat.serves.primaryKey
  indexes _ _ := ⟨_, gives_reply _⟩
  foreignKeys := cat.serves.foreignKeys
  index_rows _ _ := ⟨_, gives_reply _, @sorted_answers (Text ×ₗ ℕ) Row _ _⟩

theorem columnsOf_indexRow (ys : List (PgIndex × PgAttribute)) (n : Text) :
    columnsOf (ys.map PgIndexes.indexRow) n =
      ((ys.filter fun p => p.1.relname = n).map Prod.snd).map PgAttribute.attname := by
  rw [columnsOf, List.filter_map, List.map_map, List.map_map]
  rfl

/-- An index is described as it is exactly when its table is an ordinary one and the key, with
nothing included besides, stands in the order of the table. -/
theorem describeIn_index (h : ServesIndexes ixs lt ask) (ht : t ∈ cat.tables)
    (hi : i ∈ ixs.indexes) (hrel : i.indrelid = t.1.oid) (hp : i.indisprimary = false) :
    ∃ d, describeIn ask t.2 t.1.relname = .ok d ∧
      (Described PostgreSQL d (cat.index i) ↔
        t.1.relkind = .table ∧ i.key.Pairwise (· < ·) ∧ i.indkey ⊆ i.key) := by
  have hcol : ∃ a ∈ cat.attributes, a.attrelid = t.1.oid := by
    obtain ⟨n, hn⟩ := List.exists_mem_of_ne_nil _ (ixs.keyed i hi)
    obtain ⟨a, ha, har, -⟩ := ixs.plain i hi n (List.mem_of_mem_take hn)
    exact ⟨a, ha, har.trans hrel⟩
  have hkey : (cat.keyColumns i).map PgAttribute.attname ≠ [] := by
    intro hnil
    apply ixs.keyed i hi
    rw [← map_keyColumns hi, List.map_eq_nil_iff.mp hnil, List.map_nil]
  obtain ⟨d, ys, hd, hcoll, hperm, hsort⟩ := describeIn_collected h ht hcol
  refine ⟨d, hd, ?_⟩
  by_cases hk : t.1.relkind = .table
  · have hnamed := hperm.filter fun p => p.1.relname = i.relname
    rw [indexColumns_named ht hk hi hrel hp] at hnamed
    have hu : ∀ r ∈ ys.map PgIndexes.indexRow, r.name = i.relname → r.unique = i.indisunique := by
      intro r hr hn
      obtain ⟨p, hpys, rfl⟩ := List.mem_map.mp hr
      exact congrArg PgIndex.indisunique (fst_joined hnamed hpys (decide_eq_true hn))
    have hle : ((ys.filter fun p => p.1.relname = i.relname).map Prod.snd).Pairwise
        fun a b => a.attnum ≤ b.attnum :=
      (pairwise_joined hnamed hsort).imp fun hab => not_lt.mp fun hlt => hab (.right _ hlt)
    rw [PgCatalog.index, described_iff hcoll hkey hu, columnsOf_indexRow,
      tableOrdered_iff hi (snd_joined hnamed) hle]
    exact (and_iff_right hk).symm
  · rw [indexColumns_other ht hk] at hperm
    obtain rfl := hperm.eq_nil
    rw [PgCatalog.index, described_iff hcoll hkey (by simp)]
    exact iff_of_false hkey.symm fun hc => hk hc.1

end Spec

end Pg

namespace Mssql
open Builder (MSSQL)

/-- A row of `sys.indexes` with its columns: those of the key in key order, and those that are only
included. -/
structure ServerIndex where
  name : Text
  keys : List Text
  included : List Text := []
  isUnique : Bool := false
  isPrimaryKey : Bool := false
  type : ℕ := 2

namespace ServerIndex
variable (i : ServerIndex)

/-- `key_ordinal` and column, as `sys.index_columns` has them. -/
def indexColumns : List (ℕ × Text) :=
  i.included.map (fun c => (0, c)) ++ (i.keys.zipIdx 1).map Prod.swap

/-- `i.is_primary_key = 0 AND i.type > 0`. -/
def Listed : Prop := i.isPrimaryKey = false ∧ 0 < i.type

instance : Decidable i.Listed := inferInstanceAs (Decidable (_ ∧ _))

/-- The index as it is. -/
def index : Index := { name := i.name, columns := i.keys, isUnique := i.isUnique }

end ServerIndex

/-- A table with its indexes on plain columns. -/
structure IndexedTable extends ServerTable where
  indexes : List ServerIndex
  names : (indexes.map ServerIndex.name).Nodup
  keyed : ∀ i ∈ indexes, i.keys ≠ []
  plain : ∀ i ∈ indexes, i.keys ++ i.included ⊆ columns.map (·.1)

namespace IndexedTable
variable (t : IndexedTable)

def indexColumns : List (ServerIndex × ℕ × Text) :=
  (t.indexes.filter fun i => i.Listed).flatMap fun i => i.indexColumns.map fun c => (i, c)

def indexRow (p : ServerIndex × ℕ × Text) : IndexRow := ⟨p.1.name, p.2.2, p.1.isUnique⟩

/-- What the server may answer to the index query, `ORDER BY i.name, ic.key_ordinal`, in a
collation `lt` that tells the names of the indexes apart. -/
def IsIndexRows (lt : Text → Text → Prop) (rows : List (List Text)) : Prop :=
  Answers (Prod.Lex lt (· < ·))
      (t.indexColumns.map fun p => ((p.1.name, p.2.1), indexCells (indexRow p))) rows ∧
    ∀ i ∈ t.indexes, ∀ j ∈ t.indexes, i.name ≠ j.name → lt i.name j.name ∨ lt j.name i.name

/-- The rows of a server that compares texts by their bytes. -/
def byteRows : List (List Text) :=
  @sorted (Text ×ₗ ℕ) (List Text) _
    (t.indexColumns.map fun p => ((p.1.name, p.2.1), indexCells (indexRow p)))

theorem byteRows_spec : t.IsIndexRows (· < ·) t.byteRows :=
  ⟨@sorted_answers (Text ×ₗ ℕ) (List Text) _ _, fun _ _ _ _ h => lt_or_gt_of_ne h⟩

end IndexedTable

section Spec
variable {t : IndexedTable} {i : ServerIndex} {lt : Text → Text → Prop} {rows : List (List Text)}

theorem indexColumns_named (hi : i ∈ t.indexes) (hl : i.Listed) :
    t.indexColumns.filter (fun p => p.1.name = i.name) = i.indexColumns.map fun c => (i, c) :=
  filter_joined (t.names.sublist (List.filter_sublist.map _))
    (List.mem_filter.mpr ⟨hi, decide_eq_true hl⟩)

/-- In the order of `key_ordinal` the columns are those of the key unless some are included. -/
theorem ordinalOrdered_iff {zs : List (ℕ × Text)} (hperm : zs.Perm i.indexColumns)
    (hs : zs.Pairwise fun a b => a.1 ≤ b.1) : zs.map Prod.snd = i.keys ↔ i.included = [] := by
  constructor
  · intro h
    have hlen := hperm.length_eq
    have hkeys := congrArg List.length h
    simp only [ServerIndex.indexColumns, List.length_append, List.length_map,
      List.length_zipIdx] at hlen hkeys
    exact List.length_eq_zero_iff.mp (by omega)
  · intro h
    rw [ServerIndex.indexColumns, h, List.map_nil, List.nil_append] at hperm
    have hfst : ((i.keys.zipIdx 1).map Prod.swap).map Prod.fst = List.range' 1 i.keys.length := by
      rw [List.map_map]
      exact List.zipIdx_map_snd 1 i.keys
    have hsnd : ((i.keys.zipIdx 1).map Prod.swap).map Prod.snd = i.keys := by
      rw [List.map_map]
      exact List.zipIdx_map_fst 1 i.keys
    have hlt : ((i.keys.zipIdx 1).map Prod.swap).Pairwise fun a b => a.1 < b.1 := by
      rw [← List.pairwise_map, hfst]
      exact List.pairwise_lt_range'
    have hnd : (((i.keys.zipIdx 1).map Prod.swap).map Prod.fst).Nodup := by
      rw [hfst]
      exact List.nodup_range'
    have heq := hperm.eq_of_pairwise (fun a b ha hb hab hba =>
      eq_of_key hnd (hperm.mem_iff.mp ha) hb (le_antisymm hab hba)) hs (hlt.imp fun h => h.le)
    rw [heq, hsnd]

theorem columnsOf_indexRow (ys : List (ServerIndex × ℕ × Text)) (n : Text) :
    columnsOf (ys.map IndexedTable.indexRow) n =
      ((ys.filter fun p => p.1.name = n).map Prod.snd).map Prod.snd := by
  rw [columnsOf, List.filter_map, List.map_map, List.map_map]
  rfl

theorem mem_indexColumns {p : ServerIndex × ℕ × Text} (h : p ∈ t.indexColumns) : p.1 ∈ t.indexes := by
  obtain ⟨j, hj, hp⟩ := List.mem_flatMap.mp h
  obtain ⟨c, -, rfl⟩ := List.mem_map.mp hp
  exact (List.mem_filter.mp hj).1

/-- An index is described as it is exactly when it has no columns besides its key. -/
theorem describe_index (h : t.IsIndexRows lt rows) (hi : i ∈ t.indexes) (hl : i.Listed)
    (schema tableName : Text) (keyRows foreignKeyRows : List (List Text)) :
    Described MSSQL (describeTableInSchema schema tableName t.columnRows keyRows foreignKeyRows rows)
      i.index ↔ i.included = [] := by
  obtain ⟨hans, htri⟩ := h
  obtain ⟨ys, hperm, hsort, rfl⟩ := hans.lift
  have hmem : ∀ p ∈ ys, p.1 ∈ t.indexes := fun p hp => mem_indexColumns (hperm.mem_iff.mp hp)
  have hord : NameOrdered lt (ys.map IndexedTable.indexRow) := by
    constructor
    · rw [List.pairwise_map]
      exact hsort.imp fun h hlt => h (.left _ _ hlt)
    · simp only [List.forall_mem_map]
      exact fun p hp q hq => htri p.1 (hmem p hp) q.1 (hmem q hq)
  have hcoll : Collected (ys.map IndexedTable.indexRow) (describeTableInSchema schema tableName
      t.columnRows keyRows foreignKeyRows
      (ys.map fun p => indexCells (IndexedTable.indexRow p))).indexes := by
    have hfold := (foldl_addIndexRow hord).1
    rw [List.map_map] at hfold
    simp only [describeTableInSchema, ← Function.comp_def, hfold]
    exact collected_foldl _
  have hnamed := hperm.filter fun p => p.1.name = i.name
  rw [indexColumns_named hi hl] at hnamed
  have hu : ∀ r ∈ ys.map IndexedTable.indexRow, r.name = i.name → r.unique = i.isUnique := by
    intro r hr hn
    obtain ⟨p, hp, rfl⟩ := List.mem_map.mp hr
    exact congrArg ServerIndex.isUnique (fst_joined hnamed hp (decide_eq_true hn))
  have hle : ((ys.filter fun p => p.1.name = i.name).map Prod.snd).Pairwise fun a b => a.1 ≤ b.1 :=
    (pairwise_joined hnamed hsort).imp fun hab => not_lt.mp fun hlt => hab (.right _ hlt)
  rw [ServerIndex.index, described_iff hcoll (t.keyed i hi) hu, columnsOf_indexRow,
    ordinalOrdered_iff (snd_joined hnamed) hle]

end Spec

end Mssql

section Both

open Pg Mssql

/-- A PostgreSQL index is described as it is exactly when it is on an ordinary table and its key,
with nothing included besides, stands in the order of the table; an MSSQL index exactly when it
has no included columns. -/
theorem indexes_described_iff {cat : PgCatalog} {ixs : PgIndexes cat} {lt lt' : Text → Text → Prop}
    {ask : CatalogQuery → QueryResult} {t : PgClass × Text} {i : PgIndex} {t' : IndexedTable}
    {i' : ServerIndex} {rows : List (List Text)} (h : ServesIndexes ixs lt ask)
    (ht : t ∈ cat.tables) (hi : i ∈ ixs.indexes) (hrel : i.indrelid = t.1.oid)
    (hp : i.indisprimary = false) (h' : t'.IsIndexRows lt' rows) (hi' : i' ∈ t'.indexes)
    (hl' : i'.Listed) (schema tableName : Text) (keyRows foreignKeyRows : List (List Text)) :
    (∃ d, describeIn ask t.2 t.1.relname = .ok d ∧
      (Described Builder.PostgreSQL d (cat.index i) ↔
        t.1.relkind = .table ∧ i.key.Pairwise (· < ·) ∧ i.indkey ⊆ i.key)) ∧
    (Described Builder.MSSQL
        (describeTableInSchema schema tableName t'.columnRows keyRows foreignKeyRows rows)
        i'.index ↔ i'.included = []) :=
  ⟨describeIn_index h ht hi hrel hp, describe_index h' hi' hl' schema tableName keyRows foreignKeyRows⟩

/-- The table `s.t` with columns `a` and `b`, and an index on the columns `key` of it. -/
def twoColumns : PgCatalog where
  namespaces := [⟨1, ['s']⟩]
  classes := [{ oid := 2, relname := ['t'], relnamespace := 1 }]
  attributes := [{ attrelid := 2, attnum := 1, attname := ['a'] },
    { attrelid := 2, attnum := 2, attname := ['b'] }]
  constraints := []
  namespace_oids := schema_oids
  namespace_names := schema_names
  class_oids := by decide
  class_names := by decide
  class_namespace := by decide
  attribute_nums := by decide
  attribute_names := by decide
  constraint_names := by decide
  constraint_class := by decide
  constraint_key := by decide
  key_columns := by decide
  foreign_class := by decide
  foreign_key := by decide
  foreign_length := by decide

def pgIndexOn (key : List ℕ) : PgIndex :=
  { relname := ['x'], indrelid := 2, indkey := key, indnkeyatts := 2 }

def forward : PgIndexes twoColumns where
  indexes := [pgIndexOn [1, 2]]
  names := by decide
  plain := by decide
  keyed := by decide

def backward : PgIndexes twoColumns where
  indexes := [pgIndexOn [2, 1]]
  names := by decide
  plain := by decide
  keyed := by decide

def mssqlIndex (included : List Text) : ServerIndex :=
  { name := ['x'], keys := [['a']], included }

def alone : IndexedTable where
  columns := [(['a'], [], [], [], []), (['b'], [], [], [], [])]
  key := []
  nodup := by decide
  key_nodup := by decide
  key_subset := by decide
  indexes := [mssqlIndex []]
  names := by decide
  keyed := by decide
  plain := by decide

def covering : IndexedTable where
  toServerTable := alone.toServerTable
  indexes := [mssqlIndex [['b']]]
  names := by decide
  keyed := by decide
  plain := by decide

theorem forward_alone_described :
    (∃ d, describeIn forward.serve ['s'] ['t'] = .ok d ∧
      (Described Builder.PostgreSQL d (twoColumns.index (pgIndexOn [1, 2])) ↔
        RelKind.table = .table ∧ (pgIndexOn [1, 2]).key.Pairwise (· < ·) ∧
          (pgIndexOn [1, 2]).indkey ⊆ (pgIndexOn [1, 2]).key)) ∧
    (Described Builder.MSSQL
        (describeTableInSchema ['s'] ['t'] alone.columnRows [] [] alone.byteRows)
        (mssqlIndex []).index ↔ (mssqlIndex []).included = []) :=
  indexes_described_iff (t := ({ oid := 2, relname := ['t'], relnamespace := 1 }, ['s']))
    forward.serves (by decide) (by decide) rfl rfl alone.byteRows_spec (List.mem_singleton_self _) (by decide) ['s']
    ['t'] [] []

theorem index_columns_shuffled :
    (describeIn backward.serve ['s'] ['t']).map Table.indexes =
        .ok [{ name := ['x'], columns := [['a'], ['b']] }] ∧
      (twoColumns.index (pgIndexOn [2, 1])).columns = [['b'], ['a']] ∧
      (describeTableInSchema ['s'] ['t'] covering.columnRows [] [] covering.byteRows).indexes =
        [{ name := ['x'], columns := [['b'], ['a']] }] ∧
      (mssqlIndex [['b']]).index.columns = [['a']] := by
  decide

end Both

end DearSql
