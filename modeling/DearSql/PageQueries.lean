import DearSql.CassandraCalls
import DearSql.Conninfo
import DearSql.MysqlCatalog
import DearSql.SqlBuilder

/-! The query for one page of a table: `selectAll` of the builders and the two copies of it in
`getTableData`, against the order that the grammars have for its clauses. -/
namespace DearSql
open Cassandra (CassandraDatabase)
open Mysql (MySQLDatabase)

namespace Builder
section SelectAll
variable (b : Builder)

def whereText (whereClause : Text) : Text :=
  if whereClause = [] then [] else " WHERE ".toList ++ whereClause

def orderByText (orderByClause : Text) : Text :=
  if orderByClause = [] then [] else " ORDER BY ".toList ++ orderByClause

/-- OFFSET and FETCH NEXT require an ORDER BY, so there is a filler for an empty one. -/
def offsetPage (filler relation whereClause orderByClause : Text) (limit offset : ℤ) : Text :=
  "SELECT * FROM ".toList ++ relation ++ whereText whereClause ++
    " ORDER BY ".toList ++ (if orderByClause = [] then filler else orderByClause) ++
    " OFFSET ".toList ++ itoa offset ++ " ROWS FETCH NEXT ".toList ++ itoa limit ++ " ROWS ONLY".toList

/-- `selectAll`, from the relation under the name that it is given. -/
def selectFrom (relation whereClause orderByClause : Text) (limit offset : ℤ) : Text :=
  match b with
  | MSSQL => offsetPage "(SELECT NULL)".toList relation whereClause orderByClause limit offset
  | Oracle => offsetPage "1".toList relation whereClause orderByClause limit offset
  | Cassandra =>
    "SELECT * FROM ".toList ++ relation ++
      (if whereClause = [] then [] else " WHERE ".toList ++ whereClause ++ " ALLOW FILTERING".toList) ++
      orderByText orderByClause ++ " LIMIT ".toList ++ itoa limit
  | _ =>
    "SELECT * FROM ".toList ++ relation ++ whereText whereClause ++ orderByText orderByClause ++
      " LIMIT ".toList ++ itoa limit ++ " OFFSET ".toList ++ itoa offset

def qualifiedName (table : Table) : Text := b.qualifiedRef table.schema table.name

def selectAll (table : Table) (whereClause orderByClause : Text) (limit offset : ℤ) : Text :=
  b.selectFrom (b.qualifiedName table) whereClause orderByClause limit offset

end SelectAll
end Builder

section Clauses

inductive PageClause
  | selectFrom (relation : Text)
  | where_ (filter : Text)
  | orderBy (order : Text)
  | limit (rows : ℤ)
  | limitOffset (rows offset : ℤ)
  | offsetFetch (offset rows : ℤ)
  | allowFiltering

namespace PageClause

def text : PageClause → Text
  | selectFrom relation => "SELECT * FROM ".toList ++ relation
  | where_ filter => " WHERE ".toList ++ filter
  | orderBy order => " ORDER BY ".toList ++ order
  | limit rows => " LIMIT ".toList ++ itoa rows
  | limitOffset rows offset => " LIMIT ".toList ++ itoa rows ++ " OFFSET ".toList ++ itoa offset
  | offsetFetch offset rows =>
    " OFFSET ".toList ++ itoa offset ++ " ROWS FETCH NEXT ".toList ++ itoa rows ++ " ROWS ONLY".toList
  | allowFiltering => " ALLOW FILTERING".toList

/-- The place of a clause in the grammars. -/
def place : PageClause → ℕ
  | selectFrom _ => 0
  | where_ _ => 1
  | orderBy _ => 2
  | limit _ | limitOffset .. | offsetFetch .. => 3
  | allowFiltering => 4

end PageClause

/-- What a dialect orders by when nothing is asked for. -/
def filler : Builder → Option Text
  | .MSSQL => some "(SELECT NULL)".toList
  | .Oracle => some "1".toList
  | _ => none

def limitClause (b : Builder) (limit offset : ℤ) : PageClause :=
  match b with
  | .MSSQL | .Oracle => .offsetFetch offset limit
  | .Cassandra => .limit limit
  | .PostgreSQL | .MySQL | .SQLite | .DuckDB => .limitOffset limit offset

/-- The clauses that a page asks for, in the order of the grammar. -/
def pageClauses (b : Builder) (relation whereClause orderByClause : Text) (limit offset : ℤ) :
    List PageClause :=
  .selectFrom relation ::
    (if whereClause = [] then [] else [.where_ whereClause]) ++
    (if orderByClause = [] then (filler b).toList.map .orderBy else [.orderBy orderByClause]) ++
    [limitClause b limit offset] ++
    (if b = .Cassandra ∧ whereClause ≠ [] then [.allowFiltering] else [])

def pageText (clauses : List PageClause) : Text := clauses.flatMap PageClause.text

theorem pageClauses_sorted (b : Builder) (relation whereClause orderByClause : Text)
    (limit offset : ℤ) :
    (pageClauses b relation whereClause orderByClause limit offset).Pairwise
      fun c c' => c.place < c'.place := by
  have hwhere : ((if whereClause = [] then [] else [PageClause.where_ whereClause]).map
      PageClause.place).Sublist [1] := by
    split_ifs
    · exact List.nil_sublist _
    · exact .refl _
  have horder : ((if orderByClause = [] then (filler b).toList.map .orderBy
      else [PageClause.orderBy orderByClause]).map PageClause.place).Sublist [2] := by
    split_ifs
    · cases filler b with
      | none => exact List.nil_sublist _
      | some t => exact .refl _
    · exact .refl _
  have hlimit : ([limitClause b limit offset].map PageClause.place).Sublist [3] := by
    cases b <;> exact .refl _
  have hfilter : ((if b = .Cassandra ∧ whereClause ≠ [] then [PageClause.allowFiltering]
      else []).map PageClause.place).Sublist [4] := by
    split_ifs
    · exact .refl _
    · exact List.nil_sublist _
  have hplaces := (((hwhere.cons_cons 0).append horder).append hlimit).append hfilter
  rw [← List.pairwise_map, pageClauses, List.map_append, List.map_append, List.map_append,
    List.map_cons]
  exact .sublist hplaces (by decide)

variable {b : Builder} {relation whereClause orderByClause : Text} {limit offset : ℤ}

theorem pageText_where (whereClause : Text) :
    (if whereClause = [] then [] else [PageClause.where_ whereClause]).flatMap PageClause.text =
      Builder.whereText whereClause := by
  unfold Builder.whereText
  split_ifs
  · rfl
  · exact List.flatMap_singleton ..

theorem pageText_order (h : filler b = none) :
    (if orderByClause = [] then (filler b).toList.map .orderBy
      else [PageClause.orderBy orderByClause]).flatMap PageClause.text =
      Builder.orderByText orderByClause := by
  unfold Builder.orderByText
  rw [h]
  split_ifs
  · rfl
  · exact List.flatMap_singleton ..

theorem pageText_filler {t : Text} (h : filler b = some t) :
    (if orderByClause = [] then (filler b).toList.map .orderBy
      else [PageClause.orderBy orderByClause]).flatMap PageClause.text =
      " ORDER BY ".toList ++ if orderByClause = [] then t else orderByClause := by
  rw [h]
  split_ifs
  · exact List.flatMap_singleton ..
  · exact List.flatMap_singleton ..

theorem pageText_eq (b : Builder) (relation whereClause orderByClause : Text) (limit offset : ℤ) :
    pageText (pageClauses b relation whereClause orderByClause limit offset) =
      "SELECT * FROM ".toList ++ relation ++ Builder.whereText whereClause ++
        ((if orderByClause = [] then (filler b).toList.map .orderBy
          else [PageClause.orderBy orderByClause]).flatMap PageClause.text) ++
        (limitClause b limit offset).text ++
        (if b = .Cassandra ∧ whereClause ≠ [] then " ALLOW FILTERING".toList else []) := by
  have hlast : (if b = .Cassandra ∧ whereClause ≠ [] then [PageClause.allowFiltering]
      else []).flatMap PageClause.text =
      if b = .Cassandra ∧ whereClause ≠ [] then " ALLOW FILTERING".toList else [] := by
    split_ifs
    · exact List.flatMap_singleton ..
    · rfl
  unfold pageText pageClauses
  rw [List.flatMap_append, List.flatMap_append, List.flatMap_append, List.flatMap_cons, hlast,
    pageText_where, List.flatMap_singleton]
  rfl

/-- But for a filter on Cassandra the builders write the clauses in their order. -/
theorem selectFrom_eq (h : b = .Cassandra → whereClause = []) :
    b.selectFrom relation whereClause orderByClause limit offset =
      pageText (pageClauses b relation whereClause orderByClause limit offset) := by
  have hfilter : ¬(b = .Cassandra ∧ whereClause ≠ []) := fun hc => hc.2 (h hc.1)
  rw [pageText_eq, if_neg hfilter, List.append_nil]
  have hoffset : (PageClause.offsetFetch offset limit).text = " OFFSET ".toList ++ itoa offset ++
      " ROWS FETCH NEXT ".toList ++ itoa limit ++ " ROWS ONLY".toList := rfl
  have hlimit : (PageClause.limit limit).text = " LIMIT ".toList ++ itoa limit := rfl
  have hboth : (PageClause.limitOffset limit offset).text =
      " LIMIT ".toList ++ itoa limit ++ " OFFSET ".toList ++ itoa offset := rfl
  cases b with
  | MSSQL | Oracle =>
    rw [pageText_filler rfl, limitClause, hoffset]
    unfold Builder.selectFrom Builder.offsetPage
    simp only [-String.reduceToList, List.append_assoc]
  | Cassandra =>
    rw [pageText_order rfl, limitClause, hlimit, h rfl]
    unfold Builder.selectFrom Builder.whereText
    rw [if_pos rfl, if_pos rfl]
    simp only [-String.reduceToList, List.append_assoc]
  | PostgreSQL | MySQL | SQLite | DuckDB =>
    rw [pageText_order rfl, limitClause, hboth]
    unfold Builder.selectFrom
    simp only [-String.reduceToList, List.append_assoc]

/-- With a filter, a query that ends in its limit is not the one of the grammar. -/
theorem limit_last_ne (h : whereClause ≠ []) (pre : Text) (n : ℤ) : pre ++ itoa n ≠
    pageText (pageClauses .Cassandra relation whereClause orderByClause limit offset) := by
  intro heq
  have hboth : Builder.Cassandra = .Cassandra ∧ whereClause ≠ [] := ⟨rfl, h⟩
  have hne : itoa n ≠ [] := (Conninfo.bare_itoa n).1
  obtain ⟨c, hc⟩ : ∃ c, (itoa n).getLast? = some c := ⟨_, List.getLast?_eq_some_getLast hne⟩
  have hlast := congrArg List.getLast? heq
  rw [pageText_eq, if_pos hboth, List.getLast?_append, List.getLast?_append, hc,
    Option.some_or] at hlast
  have hG : c = 'G' := Option.some_inj.mp hlast
  rcases itoa_bytes n c (List.mem_of_getLast? hc) with rfl | hd
  · exact absurd hG (by decide)
  · exact absurd (hG ▸ hd) (by decide)

theorem selectFrom_eq_iff : b.selectFrom relation whereClause orderByClause limit offset =
    pageText (pageClauses b relation whereClause orderByClause limit offset) ↔
      (b = .Cassandra → whereClause = []) := by
  refine ⟨?_, selectFrom_eq⟩
  rintro heq rfl
  by_contra h
  exact limit_last_ne h _ _ heq

theorem itoa_injective {m n : ℤ} (h : itoa m = itoa n) : m = n := by
  have hread := congrArg leadingInt h
  rw [leadingInt_itoa, leadingInt_itoa] at hread
  exact Option.some_inj.mp hread

end Clauses

section Generators

/-- Who writes the query of a page: a builder, or one of the copies in `getTableData`. -/
inductive Generator
  | builder (b : Builder)
  | mysqlCopy
  | cassandraCopy (db : CassandraDatabase)

namespace Generator

def dialect : Generator → Builder
  | builder b => b
  | mysqlCopy => .MySQL
  | cassandraCopy _ => .Cassandra

/-- The name of the table, with or without what it is in. -/
def relation : Generator → Table → Text
  | builder b, table => b.qualifiedName table
  | mysqlCopy, table => MySQLDatabase.quoteIdent table.name
  | cassandraCopy db, table => db.target table.name

def query : Generator → Table → Text → Text → ℤ → ℤ → Text
  | builder b, table, where_, orderBy, limit, offset => b.selectAll table where_ orderBy limit offset
  | mysqlCopy, table, where_, orderBy, limit, offset =>
    MySQLDatabase.dataQuery table.name limit offset where_ orderBy
  | cassandraCopy db, table, where_, orderBy, limit, _ => db.dataCql table.name limit where_ orderBy

/-- Whether the limit of the generator is the one it is asked for. -/
def takesLimit : Generator → ℤ → Prop
  | cassandraCopy _, limit => 0 < limit
  | _, _ => True

/-- The clauses of the page in the order of the grammar, and the query of the builder but for the
name of the table. -/
def WritesPage (g : Generator) (table : Table) (where_ orderBy : Text) (limit offset : ℤ) : Prop :=
  g.query table where_ orderBy limit offset =
      pageText (pageClauses g.dialect (g.relation table) where_ orderBy limit offset) ∧
    g.query table where_ orderBy limit offset =
      g.dialect.selectFrom (g.relation table) where_ orderBy limit offset

/-- The page queries are right but for a filter on Cassandra, and but for a limit that its copy
does not take. -/
theorem page_query_iff (g : Generator) (table : Table) (where_ orderBy : Text) (limit offset : ℤ) :
    (pageClauses g.dialect (g.relation table) where_ orderBy limit offset).Pairwise
        (fun c c' => c.place < c'.place) ∧
      (g.WritesPage table where_ orderBy limit offset ↔
        (g.dialect = .Cassandra → where_ = []) ∧ g.takesLimit limit) := by
  refine ⟨pageClauses_sorted _ _ _ _ _ _, ?_⟩
  cases g with
  | builder b => exact and_congr selectFrom_eq_iff (iff_of_true rfl trivial)
  | mysqlCopy =>
    have hcopy : query mysqlCopy table where_ orderBy limit offset =
        Builder.MySQL.selectFrom (MySQLDatabase.quoteIdent table.name) where_ orderBy limit
          offset := rfl
    refine and_congr ?_ (iff_of_true hcopy trivial)
    rw [hcopy]
    exact selectFrom_eq_iff
  | cassandraCopy db =>
    have hcopy : query (cassandraCopy db) table where_ orderBy limit offset =
        Builder.Cassandra.selectFrom (db.target table.name) where_ orderBy
          (CassandraDatabase.pageLimit limit) offset := rfl
    have hlimit : CassandraDatabase.pageLimit limit = limit ↔ 0 < limit := by
      rw [CassandraDatabase.pageLimit]
      split_ifs <;> omega
    have hagree : query (cassandraCopy db) table where_ orderBy limit offset =
        Builder.Cassandra.selectFrom (db.target table.name) where_ orderBy limit offset ↔
          0 < limit := by
      rw [hcopy, ← hlimit]
      refine ⟨fun h => ?_, fun h => by rw [h]⟩
      exact itoa_injective (List.append_cancel_left h)
    constructor
    · rintro ⟨hpage, hbuilder⟩
      rw [hbuilder] at hpage
      exact ⟨selectFrom_eq_iff.mp hpage, hagree.mp hbuilder⟩
    · rintro ⟨hwhere, hpos⟩
      exact ⟨(hagree.mpr hpos).trans (selectFrom_eq_iff.mpr hwhere), hagree.mpr hpos⟩

/-- A filter and an order on Cassandra. -/
theorem filter_before_order :
    Builder.Cassandra.selectAll { name := "t".toList, schema := "k".toList } "a = 1".toList
        "b".toList 10 0 =
      "SELECT * FROM \"k\".\"t\" WHERE a = 1 ALLOW FILTERING ORDER BY b LIMIT 10".toList ∧
      ¬WritesPage (builder .Cassandra) { name := "t".toList, schema := "k".toList } "a = 1".toList
        "b".toList 10 0 := by
  refine ⟨by decide, fun h => ?_⟩
  have hwhere := (selectFrom_eq_iff (b := .Cassandra)).mp h.1 rfl
  exact absurd hwhere (by decide)

end Generator
end Generators
end DearSql
