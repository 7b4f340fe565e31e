import DearSql.QueryResult
import DearSql.Separated
import DearSql.SqlBuilder
import DearSql.StatementLists

/-! `IDatabase::tableDdl`: the DDL of a table, put together from the PostgreSQL catalog, or as the
server has it. -/
namespace DearSql.Ddl
open Separated

abbrev Row := List Text

/-- The queries of `tableDdl`. -/
inductive DdlQuery
  | head | columns | constraints | indexes
  | showTable | showCreateTable | sqliteMaster | duckdbTables | duckdbIndexes
  | oracleTable | oracleIndexes
  deriving DecidableEq, Repr

def lit (s : Text) : Text := '\'' :: escapeSingleQuotes s ++ ['\'']

def isBlank (c : Char) : Bool := c = ' ' || c = '\t' || c = '\r' || c = '\n'

/-- What `joined` takes of a row. -/
def cellOf (col : ℕ) (r : Row) : Option Text :=
  match r[col]? with
  | none => none
  | some cell =>
    if cell = NULL_SENTINEL || trimEnds isBlank cell = [] then none
    else some (trimEnds isBlank cell)

def joined (rows : List Row) (col : ℕ) (sep : Text) : Text :=
  rows.foldl (fun out r =>
    match cellOf col r with
    | none => out
    | some cell => out ++ (if out = [] then [] else sep) ++ cell) []

/-- `^nextval\('[^']+'::regclass\)$` -/
def serialDefault (s : Text) : Bool :=
  "nextval('".toList.isPrefixOf s && (s.drop 9).takeWhile (· ≠ '\'') ≠ [] &&
    (s.drop 9).dropWhile (· ≠ '\'') = "'::regclass)".toList

def serialTypes : List (Text × Text) :=
  [("integer".toList, "serial".toList), ("bigint".toList, "bigserial".toList),
    ("smallint".toList, "smallserial".toList)]

/-- The sequence of such a default comes with the type. -/
def serialOf (type default : Text) : Option Text :=
  if serialDefault default then serialTypes.lookup type else none

/-- The type of a column and what follows it. -/
def typeAndExtra (type default identity generated : Text) : Text × Text :=
  if generated = ['s'] then
    (type, " GENERATED ALWAYS AS (".toList ++ (default ++ ") STORED".toList))
  else if generated = ['v'] then
    (type, " GENERATED ALWAYS AS (".toList ++ (default ++ ") VIRTUAL".toList))
  else if identity = ['a'] then (type, " GENERATED ALWAYS AS IDENTITY".toList)
  else if identity = ['d'] then (type, " GENERATED BY DEFAULT AS IDENTITY".toList)
  else match serialOf type default with
    | some serial => (serial, [])
    | none => (type, if default ≠ [] then " DEFAULT ".toList ++ default else [])

def columnComment (name col comment : Text) : Text :=
  "COMMENT ON COLUMN ".toList ++ (name ++ '.' :: col ++ (" IS ".toList ++ lit comment))

/-- The line of a column and its comment as a statement. -/
def columnLine (name : Text) : Row → Option (Text × List Text)
  | col :: type :: notNull :: default :: identity :: generated :: comment :: _ =>
    let r := typeAndExtra type default identity generated
    some (col ++ (' ' :: (r.1 ++ (r.2 ++
        if notNull = "true".toList then " NOT NULL".toList else []))),
      if comment ≠ [] then [columnComment name col comment] else [])
  | _ => none

def constraintLine : Row → Option Text
  | name :: definition :: _ => some ("CONSTRAINT ".toList ++ (name ++ ' ' :: definition))
  | _ => none

/-- The statement of the table itself. -/
def createText (name persistence partition : Text) (lines : List Text) : Text :=
  "CREATE ".toList ++ ((if persistence = ['u'] then "UNLOGGED ".toList else []) ++
    ("TABLE ".toList ++ (name ++ (" (\n".toList ++ (Builder.joinLines lines ++ (")".toList ++
      if partition ≠ [] then " PARTITION BY ".toList ++ partition else []))))))

def tableComment (name comment : Text) : Text :=
  "COMMENT ON TABLE ".toList ++ (name ++ (" IS ".toList ++ lit comment))

def postgresTableDdl (qualified : Text) (rows : DdlQuery → Except Text (List Row)) :
    Except Text Text := do
  match ← rows .head with
  | (name :: persistence :: partition :: comment :: _) :: _ =>
    let columns := (← rows .columns).filterMap (columnLine name)
    let constraints := (← rows .constraints).filterMap constraintLine
    let sql := createText name persistence partition (columns.map Prod.fst ++ constraints) ++ [';']
    let indexes := joined (← rows .indexes) 0 ['\n']
    return sql ++ (if indexes ≠ [] then '\n' :: indexes else []) ++
      (if comment ≠ [] then '\n' :: (tableComment name comment ++ [';']) else []) ++
      (columns.flatMap Prod.snd).flatMap fun c => '\n' :: (c ++ [';'])
  | _ => throw ("table not found: ".toList ++ qualified)

def nonEmpty (tableName ddl : Text) : Except Text Text :=
  if ddl = [] then .error ("table not found: ".toList ++ tableName) else .ok ddl

def withIndexes (ddl indexes : Text) : Text :=
  if indexes = [] then ddl else ddl ++ '\n' :: indexes

def tableDdl (type : DatabaseType) (schema tableName : Text)
    (rows : DdlQuery → Except Text (List Row)) (describeTable : Except Text Table) :
    Except Text Text := do
  let builder := createSQLBuilder type
  let qualified := if schema = [] then builder.quoteIdentifier tableName
    else builder.quoteIdentifier schema ++ '.' :: builder.quoteIdentifier tableName
  match type with
  | .POSTGRESQL => postgresTableDdl qualified rows
  | .REDSHIFT => nonEmpty tableName (joined (← rows .showTable) 0 ['\n'])
  | .MYSQL | .MARIADB | .TIDB | .COCKROACHDB =>
    let ddl ← nonEmpty tableName (joined (← rows .showCreateTable) 1 [])
    return if [';'].isSuffixOf ddl then ddl else ddl ++ [';']
  | .SQLITE => nonEmpty tableName (joined (← rows .sqliteMaster) 0 ['\n'])
  | .DUCKDB =>
    let ddl ← nonEmpty tableName (joined (← rows .duckdbTables) 0 [])
    return withIndexes ddl (joined (← rows .duckdbIndexes) 0 ['\n'])
  | .ORACLE =>
    let ddl ← nonEmpty tableName (joined (← rows .oracleTable) 0 [])
    return withIndexes ddl (joined (← rows .oracleIndexes) 0 ['\n'])
  | .MONGODB | .REDIS => throw "no table DDL for this database type".toList
  | _ =>
    let table ← describeTable
    if table.columns = [] then throw ("table not found: ".toList ++ tableName)
    else return builder.tableDdl table schema

section Joined

variable {rows : List Row} {col : ℕ} {sep x : Text} {xs : List Text}

theorem intercalate_concat (xs : List Text) (x : Text) : sep.intercalate (xs ++ [x]) =
    sep.intercalate xs ++ (if xs = [] then [] else sep) ++ x := by
  induction xs with
  | nil => simp
  | cons y ys ih =>
    cases ys with
    | nil => simp [List.intercalate_cons_cons]
    | cons z zs =>
      rw [List.cons_append, List.cons_append, List.intercalate_cons_cons, ← List.cons_append, ih,
        List.intercalate_cons_cons]
      simp

theorem intercalate_eq_nil (h : ∀ x ∈ xs, x ≠ []) : sep.intercalate xs = [] ↔ xs = [] := by
  cases xs with
  | nil => simp
  | cons x xs =>
    have hx := h x List.mem_cons_self
    cases xs with
    | nil => simpa using hx
    | cons y ys => simp [List.intercalate_cons_cons, hx]

theorem cellOf_ne {r : Row} (h : cellOf col r = some x) : x ≠ [] := by
  unfold cellOf at h
  split at h
  · cases h
  · split_ifs at h with hc
    obtain rfl := Option.some.inj h
    simp only [Bool.or_eq_true, decide_eq_true_eq, not_or] at hc
    exact hc.2

theorem joined_eq : joined rows col sep = sep.intercalate (rows.filterMap (cellOf col)) := by
  induction rows using List.reverseRecOn with
  | nil => rfl
  | append_singleton rows r ih =>
    have hcells : ∀ x ∈ rows.filterMap (cellOf col), x ≠ [] := by
      intro x hx
      obtain ⟨r, -, hr⟩ := List.mem_filterMap.mp hx
      exact cellOf_ne hr
    rw [joined, List.foldl_append, List.foldl_cons, List.foldl_nil, ← joined, ih,
      List.filterMap_append]
    cases hr : cellOf col r with
    | none => simp [hr]
    | some x =>
      rw [List.filterMap_cons_some hr, List.filterMap_nil, intercalate_concat]
      simp only [intercalate_eq_nil hcells]

end Joined

section Postgres

structure DdlColumn where
  name : Text
  type : Text
  notNull : Bool
  default : Text
  identity : Text
  generated : Text
  comment : Text

/-- A table as the server describes it: names in the quotes they need, and indexes as
statements. -/
structure DdlTable where
  name : Text
  persistence : Text
  partition : Text
  comment : Text
  columns : List DdlColumn
  constraints : List (Text × Text)
  indexes : List Text

def DdlColumn.row (c : DdlColumn) : Row :=
  [c.name, c.type, if c.notNull then "true".toList else "false".toList, c.default, c.identity,
    c.generated, c.comment]

def DdlTable.rows (t : DdlTable) : DdlQuery → Except Text (List Row)
  | .head => .ok [[t.name, t.persistence, t.partition, t.comment]]
  | .columns => .ok (t.columns.map DdlColumn.row)
  | .constraints => .ok (t.constraints.map fun k => [k.1, k.2])
  | .indexes => .ok (t.indexes.map fun i => [i ++ [';']])
  | _ => .error []

/-- The line of a column. -/
def DdlColumn.line (c : DdlColumn) : Text :=
  let r := typeAndExtra c.type c.default c.identity c.generated
  c.name ++ (' ' :: (r.1 ++ (r.2 ++ if c.notNull then " NOT NULL".toList else [])))

def DdlColumn.commentOn (name : Text) (c : DdlColumn) : Text :=
  columnComment name c.name c.comment

def DdlTable.create (t : DdlTable) : Text :=
  createText t.name t.persistence t.partition
    (t.columns.map DdlColumn.line ++ t.constraints.map fun k =>
      "CONSTRAINT ".toList ++ (k.1 ++ ' ' :: k.2))

/-- The statements of a table: the table itself, its indexes and its comments. -/
def DdlTable.statements (t : DdlTable) : List Text :=
  t.create :: (t.indexes ++ (if t.comment ≠ [] then [tableComment t.name t.comment] else []) ++
    (t.columns.filter fun c => c.comment ≠ []).map (DdlColumn.commentOn t.name))

/-- What the server gives besides comments is code. -/
structure DdlTable.Fragments (t : DdlTable) : Prop where
  name : Fragment (dialectFor .POSTGRESQL) t.name
  partition : Fragment (dialectFor .POSTGRESQL) t.partition
  ended : t.partition ≠ [] → EndsSolid t.partition
  column : ∀ c ∈ t.columns, Fragment (dialectFor .POSTGRESQL) c.name ∧
    Fragment (dialectFor .POSTGRESQL) c.type ∧ Fragment (dialectFor .POSTGRESQL) c.default ∧
      Fragment (dialectFor .POSTGRESQL) (t.name ++ '.' :: c.name)
  constraint : ∀ k ∈ t.constraints, Fragment (dialectFor .POSTGRESQL) k.1 ∧
    Fragment (dialectFor .POSTGRESQL) k.2
  index : ∀ i ∈ t.indexes, IsStatement .POSTGRESQL i

variable {t : DdlTable} {c : DdlColumn} {p q : Text}

/-- The phrases that start a statement or a line of one. -/
@[simp] def ddlStarts : List String :=
  ["CONSTRAINT ", "CREATE ", "UNLOGGED ", "TABLE ", "COMMENT ON COLUMN ", "COMMENT ON TABLE "]

/-- The phrases behind which, too, stands anything. -/
@[simp] def ddlLinks : List String :=
  [" ", "    ", "\n", ",\n", " (\n", " GENERATED ALWAYS AS (", " DEFAULT ", " PARTITION BY ",
    " IS "]

/-- The phrases behind which stands nothing, or what starts with a break. -/
@[simp] def ddlTails : List String :=
  [")", ") STORED", ") VIRTUAL", " GENERATED ALWAYS AS IDENTITY",
    " GENERATED BY DEFAULT AS IDENTITY", " NOT NULL"]

theorem phrase_law :
    (∀ s ∈ ddlStarts ++ ddlLinks, Fragment (dialectFor .POSTGRESQL) s.toList ∧
      endsOpen (dialectFor .POSTGRESQL) s.toList = true) ∧
    (∀ s ∈ ddlTails, Fragment (dialectFor .POSTGRESQL) s.toList ∧
      s.toList.head?.any isBreak = true) ∧
    (∀ s ∈ ddlLinks, s.toList.head?.any isBreak = true) ∧
    (∀ s ∈ ddlStarts, BeginsSolid s.toList) ∧
    EndsSolid ")".toList ∧ ∀ x ∈ serialTypes, Fragment (dialectFor .POSTGRESQL) x.2 := by
  decide +kernel

theorem lead_fragment {s : String} (hs : s ∈ ddlStarts ++ ddlLinks)
    (hp : Fragment (dialectFor .POSTGRESQL) p) :
    Fragment (dialectFor .POSTGRESQL) (s.toList ++ p) :=
  (phrase_law.1 s hs).1.lead (phrase_law.1 s hs).2 hp

theorem link_breaks {s : String} (hs : s ∈ ddlLinks) (p : Text) : Breaks (s.toList ++ p) :=
  (breaks_of (phrase_law.2.2.1 s hs)).append p

theorem start_solid {s : String} (hs : s ∈ ddlStarts) (p : Text) :
    BeginsSolid (s.toList ++ p) :=
  (phrase_law.2.2.2.1 s hs).append p

theorem tail_fragment {s : String} (hs : s ∈ ddlTails) :
    Fragment (dialectFor .POSTGRESQL) s.toList :=
  (phrase_law.2.1 s hs).1

theorem tail_breaks {s : String} (hs : s ∈ ddlTails) : Breaks s.toList :=
  breaks_of (phrase_law.2.1 s hs).2

theorem fragment_blank (h : Fragment (dialectFor .POSTGRESQL) p) :
    Fragment (dialectFor .POSTGRESQL) (' ' :: p) :=
  lead_fragment (s := " ") (by simp) h

theorem stops_blank : Stops (' ' :: p) := stops_cons.mpr (by decide)

theorem serialOf_fragment {type default serial : Text} (h : serialOf type default = some serial) :
    Fragment (dialectFor .POSTGRESQL) serial := by
  unfold serialOf at h
  split_ifs at h
  obtain ⟨l, l', hl, -⟩ := List.lookup_eq_some_iff.mp h
  exact phrase_law.2.2.2.2.2 (type, serial) (by simp [hl])

theorem generated_fragment {kind : String} {default : Text}
    (hdefault : Fragment (dialectFor .POSTGRESQL) default) (hkind : kind ∈ ddlTails) :
    Fragment (dialectFor .POSTGRESQL)
        (" GENERATED ALWAYS AS (".toList ++ (default ++ kind.toList)) ∧
      Stops (" GENERATED ALWAYS AS (".toList ++ (default ++ kind.toList)) :=
  ⟨lead_fragment (by simp)
      (hdefault.append (tail_fragment hkind) (tail_breaks hkind).1),
    (link_breaks (by simp) _).1⟩

theorem typeAndExtra_fragment {type default : Text} (identity generated : Text)
    (htype : Fragment (dialectFor .POSTGRESQL) type)
    (hdefault : Fragment (dialectFor .POSTGRESQL) default) :
    Fragment (dialectFor .POSTGRESQL) (typeAndExtra type default identity generated).1 ∧
      Fragment (dialectFor .POSTGRESQL) (typeAndExtra type default identity generated).2 ∧
        Stops (typeAndExtra type default identity generated).2 := by
  have hidentity (s : String) (hs : s ∈ ddlTails) :
      Fragment (dialectFor .POSTGRESQL) s.toList ∧ Stops s.toList :=
    ⟨tail_fragment hs, (tail_breaks hs).1⟩
  unfold typeAndExtra
  split_ifs
  · exact ⟨htype, generated_fragment hdefault (by simp)⟩
  · exact ⟨htype, generated_fragment hdefault (by simp)⟩
  · exact ⟨htype, hidentity _ (by simp)⟩
  · exact ⟨htype, hidentity _ (by simp)⟩
  · split
    · next hserial => exact ⟨serialOf_fragment hserial, .nil, .nil⟩
    · exact ⟨htype, lead_fragment (by simp) hdefault,
        (link_breaks (by simp) _).1⟩
  · split
    · next hserial => exact ⟨serialOf_fragment hserial, .nil, .nil⟩
    · exact ⟨htype, .nil, .nil⟩

theorem line_fragment (h : t.Fragments) (hc : c ∈ t.columns) :
    Fragment (dialectFor .POSTGRESQL) c.line := by
  obtain ⟨hname, htype, hdefault, -⟩ := h.column c hc
  obtain ⟨htype, hextra, hstops⟩ := typeAndExtra_fragment c.identity c.generated htype hdefault
  have hnull : Fragment (dialectFor .POSTGRESQL)
      (if c.notNull then " NOT NULL".toList else []) ∧
        Stops (if c.notNull then " NOT NULL".toList else []) := by
    split_ifs
    · exact ⟨tail_fragment (by simp), (tail_breaks (by simp)).1⟩
    · exact ⟨.nil, .nil⟩
  exact hname.append (fragment_blank (htype.append (hextra.append hnull.1 hnull.2)
    (hstops.append hnull.2))) stops_blank

theorem joinLines_fragment {lines : List Text}
    (h : ∀ l ∈ lines, Fragment (dialectFor .POSTGRESQL) l)
    (hp : Fragment (dialectFor .POSTGRESQL) p) :
    Fragment (dialectFor .POSTGRESQL) (Builder.joinLines lines ++ p) := by
  induction lines with
  | nil => exact hp
  | cons l ls ih =>
    obtain ⟨hl, hls⟩ := List.forall_mem_cons.mp h
    cases ls with
    | nil =>
      simp only [Builder.joinLines, List.append_assoc]
      exact lead_fragment (by simp) (hl.append
        (lead_fragment (by simp) hp) (link_breaks (by simp) _).1)
    | cons l' ls =>
      simp only [Builder.joinLines, List.append_assoc]
      exact lead_fragment (by simp) (hl.append
        (lead_fragment (by simp) (ih hls)) (link_breaks (by simp) _).1)

theorem createText_fragment {name partition : Text} {lines : List Text} (persistence : Text)
    (hname : Fragment (dialectFor .POSTGRESQL) name)
    (hpartition : Fragment (dialectFor .POSTGRESQL) partition)
    (hlines : ∀ l ∈ lines, Fragment (dialectFor .POSTGRESQL) l) :
    Fragment (dialectFor .POSTGRESQL) (createText name persistence partition lines) := by
  have hclose : Fragment (dialectFor .POSTGRESQL) ")".toList := tail_fragment (by simp)
  have hend : Fragment (dialectFor .POSTGRESQL) (")".toList ++
      if partition ≠ [] then " PARTITION BY ".toList ++ partition else []) := by
    split_ifs
    · exact hclose.append (lead_fragment (by simp) hpartition)
        (link_breaks (by simp) _).1
    · exact hclose.append .nil .nil
  have htable : Fragment (dialectFor .POSTGRESQL) ("TABLE ".toList ++ (name ++ (" (\n".toList ++
      (Builder.joinLines lines ++ (")".toList ++
        if partition ≠ [] then " PARTITION BY ".toList ++ partition else []))))) :=
    lead_fragment (by simp) (hname.append
      (lead_fragment (by simp) (joinLines_fragment hlines hend))
      (link_breaks (by simp) _).1)
  refine lead_fragment (by simp) ?_
  by_cases hunlogged : persistence = ['u']
  · rw [if_pos hunlogged]
    exact lead_fragment (by simp) htable
  · rw [if_neg hunlogged]
    exact htable

theorem createText_statement {name partition : Text} {lines : List Text} (persistence : Text)
    (hname : Fragment (dialectFor .POSTGRESQL) name)
    (hpartition : Fragment (dialectFor .POSTGRESQL) partition)
    (hended : partition ≠ [] → EndsSolid partition)
    (hlines : ∀ l ∈ lines, Fragment (dialectFor .POSTGRESQL) l) :
    IsStatement .POSTGRESQL (createText name persistence partition lines) where
  fragment := createText_fragment persistence hname hpartition hlines
  first := start_solid (by simp) _
  last := by
    have hend : EndsSolid (")".toList ++
        if partition ≠ [] then " PARTITION BY ".toList ++ partition else []) := by
      split_ifs with hpart
      · exact ((hended hpart).append _).append _
      · rw [List.append_nil]
        exact phrase_law.2.2.2.2.1
    exact (((((hend.append _).append _).append _).append _).append _).append _

theorem create_statement (h : t.Fragments) : IsStatement .POSTGRESQL t.create := by
  refine createText_statement _ h.name h.partition h.ended ?_
  refine List.forall_mem_append.mpr ⟨List.forall_mem_map.mpr fun c hc => line_fragment h hc,
    List.forall_mem_map.mpr fun k hk => ?_⟩
  obtain ⟨hname, hdefinition⟩ := h.constraint k hk
  exact lead_fragment (by simp) (hname.append (fragment_blank hdefinition) stops_blank)

/-- A comment on what has the path, whatever it says. -/
theorem comment_statement {front : String} {path : Text} (comment : Text)
    (hfront : front ∈ ddlStarts) (hpath : Fragment (dialectFor .POSTGRESQL) path) :
    IsStatement .POSTGRESQL (front.toList ++ (path ++ (" IS ".toList ++ lit comment))) where
  fragment := lead_fragment (List.mem_append_left _ hfront) (hpath.append
    (lead_fragment (by simp) (.literal fun hescape => absurd hescape (by decide)))
    (link_breaks (by simp) _).1)
  first := start_solid hfront _
  last := by
    have hquote : EndsSolid (lit comment) :=
      EndsSolid.append (q := ['\'']) (by decide) ('\'' :: escapeSingleQuotes comment)
    exact ((hquote.append _).append _).append _

theorem statements_statement (h : t.Fragments) : ∀ x ∈ t.statements, IsStatement .POSTGRESQL x := by
  refine List.forall_mem_cons.mpr ⟨create_statement h, ?_⟩
  refine List.forall_mem_append.mpr ⟨List.forall_mem_append.mpr ⟨h.index, ?_⟩, ?_⟩
  · intro x hx
    split_ifs at hx
    · obtain rfl := List.mem_singleton.mp hx
      exact comment_statement _ (by simp) h.name
    · cases hx
  · refine List.forall_mem_map.mpr fun c hc => ?_
    exact comment_statement _ (by simp) (h.column c (List.mem_filter.mp hc).1).2.2.2

theorem notNull_text (b : Bool) : (if b then "true".toList else "false".toList) = "true".toList ↔
    b = true := by
  cases b with
  | true => exact iff_of_true (if_pos rfl) rfl
  | false =>
    rw [if_neg Bool.false_ne_true]
    exact iff_of_false (fun h => absurd (String.toList_inj.mp h) (by decide))
      Bool.false_ne_true

theorem columnLine_row (name : Text) (c : DdlColumn) : columnLine name c.row =
    some (c.line, if c.comment ≠ [] then [c.commentOn name] else []) := by
  have hnull : (if (if c.notNull then "true".toList else "false".toList) = "true".toList then
      " NOT NULL".toList else []) = if c.notNull then " NOT NULL".toList else [] :=
    if_congr (notNull_text _) rfl rfl
  rw [DdlColumn.row, columnLine, hnull]
  rfl

theorem columns_read (t : DdlTable) : (t.columns.map DdlColumn.row).filterMap (columnLine t.name) =
    t.columns.map fun c => (c.line, if c.comment ≠ [] then [c.commentOn t.name] else []) := by
  rw [List.filterMap_map, ← List.filterMap_eq_map]
  exact List.filterMap_congr fun c _ => columnLine_row t.name c

theorem constraints_read (t : DdlTable) :
    (t.constraints.map fun k => [k.1, k.2]).filterMap constraintLine =
      t.constraints.map fun k => "CONSTRAINT ".toList ++ (k.1 ++ ' ' :: k.2) := by
  rw [List.filterMap_map, ← List.filterMap_eq_map]
  rfl

theorem isBlank_isspace {ch : Char} (h : isspace ch = false) : isBlank ch = false := by
  simp only [isBlank, isspace, Bool.or_eq_false_iff, decide_eq_false_iff_not] at h ⊢
  tauto

theorem cellOf_statement {x : Text} (h : IsStatement .POSTGRESQL x) :
    cellOf 0 [x ++ [';']] = some (x ++ [';']) := by
  have htrim : trimEnds isBlank (x ++ [';']) = x ++ [';'] := by
    have hfirst := h.first.append [';']
    refine trimEnds_eq_self.mpr ⟨fun ch hch => ?_, fun ch hch => ?_⟩
    · rw [BeginsSolid, Option.mem_def.mp hch] at hfirst
      exact isBlank_isspace (by simpa using hfirst)
    · rw [List.getLast?_concat, Option.mem_def, Option.some.injEq] at hch
      subst hch
      decide
  have hnull : x ++ [';'] ≠ NULL_SENTINEL := by
    intro he
    have hlast := congrArg List.getLast? he
    rw [List.getLast?_concat] at hlast
    revert hlast
    decide
  simp [cellOf, htrim, hnull]

theorem indexes_read (h : t.Fragments) :
    joined (t.indexes.map fun i => [i ++ [';']]) 0 ['\n'] = statementLines t.indexes := by
  have hcells : (t.indexes.map fun i => [i ++ [';']]).filterMap (cellOf 0) =
      t.indexes.map (· ++ [';']) := by
    rw [List.filterMap_map, ← List.filterMap_eq_map]
    exact List.filterMap_congr fun i hi => cellOf_statement (h.index i hi)
  rw [joined_eq, hcells, statementLines]

theorem comments_read (name : Text) (columns : List DdlColumn) :
    (columns.map fun c => (c.line, if c.comment ≠ [] then [c.commentOn name] else [])).flatMap
      Prod.snd = (columns.filter fun c => c.comment ≠ []).map (DdlColumn.commentOn name) := by
  induction columns with
  | nil => rfl
  | cons c cs ih =>
    rw [List.map_cons, List.flatMap_cons, ih, List.filter_cons]
    by_cases hc : c.comment = []
    · simp [hc]
    · simp [hc]

/-- The DDL of a table is its statements, one to a line. -/
theorem postgresTableDdl_eq (qualified : Text) (h : t.Fragments) :
    postgresTableDdl qualified t.rows = .ok (statementLines t.statements) := by
  have hlines : (t.columns.map fun c =>
      (c.line, if c.comment ≠ [] then [c.commentOn t.name] else [])).map Prod.fst =
        t.columns.map DdlColumn.line := by
    rw [List.map_map]
    rfl
  have hcomment :
      (if t.comment ≠ [] then '\n' :: (tableComment t.name t.comment ++ [';']) else []) =
        (if t.comment ≠ [] then [tableComment t.name t.comment] else []).flatMap
          fun y => '\n' :: (y ++ [';']) := by
    split_ifs <;> simp
  simp only [postgresTableDdl, DdlTable.rows, bind, Except.bind, pure, Except.pure, columns_read,
    constraints_read, indexes_read h, comments_read, hlines, statementLines_behind, hcomment]
  rw [DdlTable.statements, statementLines_eq, List.flatMap_append, List.flatMap_append,
    DdlTable.create]
  simp only [List.append_assoc, List.cons_append, List.nil_append]

/-- The DDL that is put together for a table is split into its statements, whatever its comments
say. -/
theorem postgresDdl_statements (schema tableName : Text) (describeTable : Except Text Table)
    (h : t.Fragments) :
    tableDdl .POSTGRESQL schema tableName t.rows describeTable =
        .ok (statementLines t.statements) ∧
      (statementRanges (statementLines t.statements) .POSTGRESQL).map
        (fun r => slice (statementLines t.statements) r.1 r.2) = t.statements :=
  ⟨postgresTableDdl_eq _ h, statements_of_lines (statements_statement h)⟩

def orders : DdlTable where
  name := "public.orders".toList
  persistence := ['u']
  partition := "RANGE (at)".toList
  comment := "it's; -- all".toList
  columns := [
    ⟨"id".toList, "integer".toList, true, "nextval('orders_id_seq'::regclass)".toList, [], [], []⟩,
    ⟨"at".toList, "date".toList, false, "now()".toList, [], [], "/* when".toList⟩]
  constraints := [("orders_at".toList, "CHECK (at > '2000-01-01')".toList)]
  indexes := ["CREATE INDEX orders_at_idx ON public.orders USING btree (at)".toList]

theorem postgresDdl_orders :
    tableDdl .POSTGRESQL "public".toList "orders".toList orders.rows (.error []) =
        .ok (statementLines orders.statements) ∧
      (statementRanges (statementLines orders.statements) .POSTGRESQL).map
        (fun r => slice (statementLines orders.statements) r.1 r.2) = orders.statements :=
  postgresDdl_statements _ _ _
    ⟨by decide +kernel, by decide +kernel, by decide +kernel, by decide +kernel, by decide +kernel,
      by decide +kernel⟩

end Postgres

section Server

/-- The server has the table as a statement and its indexes as more. -/
inductive ServerHas (rows : DdlQuery → Except Text (List Row)) (table : Text) :
    DatabaseType → List Text → Prop
  | redshift (r : List Row) (h : rows .showTable = .ok r)
      (hcells : r.filterMap (cellOf 0) = [table ++ [';']]) : ServerHas rows table .REDSHIFT []
  | openEnd (type : DatabaseType) (r : List Row)
      (htype : type ∈ [DatabaseType.MYSQL, .MARIADB, .TIDB, .COCKROACHDB])
      (h : rows .showCreateTable = .ok r) (hcells : r.filterMap (cellOf 1) = [table])
      (hend : [';'].isSuffixOf table = false) : ServerHas rows table type []
  | closedEnd (type : DatabaseType) (r : List Row)
      (htype : type ∈ [DatabaseType.MYSQL, .MARIADB, .TIDB, .COCKROACHDB])
      (h : rows .showCreateTable = .ok r) (hcells : r.filterMap (cellOf 1) = [table ++ [';']]) :
      ServerHas rows table type []
  | sqlite (r : List Row) (indexes : List Text) (h : rows .sqliteMaster = .ok r)
      (hcells : r.filterMap (cellOf 0) = (table :: indexes).map (· ++ [';'])) :
      ServerHas rows table .SQLITE indexes
  | duckdb (r ri : List Row) (indexes : List Text) (h : rows .duckdbTables = .ok r)
      (hcells : r.filterMap (cellOf 0) = [table ++ [';']]) (hi : rows .duckdbIndexes = .ok ri)
      (hindexes : ri.filterMap (cellOf 0) = indexes.map (· ++ [';'])) :
      ServerHas rows table .DUCKDB indexes
  | oracle (r ri : List Row) (indexes : List Text) (h : rows .oracleTable = .ok r)
      (hcells : r.filterMap (cellOf 0) = [table ++ [';']]) (hi : rows .oracleIndexes = .ok ri)
      (hindexes : ri.filterMap (cellOf 0) = indexes.map (· ++ [';'])) :
      ServerHas rows table .ORACLE indexes

variable {type : DatabaseType} {rows : DdlQuery → Except Text (List Row)} {table : Text}
  {indexes : List Text}

theorem withIndexes_lines (table : Text) (indexes : List Text) :
    withIndexes (table ++ [';']) (['\n'].intercalate (indexes.map (· ++ [';']))) =
      statementLines (table :: indexes) := by
  rw [← statementLines]
  cases indexes with
  | nil => simp [withIndexes, statementLines]
  | cons i is => simp [withIndexes, statementLines_eq]

theorem nonEmpty_semi (tableName x : Text) :
    nonEmpty tableName (x ++ [';']) = .ok (x ++ [';']) := by
  simp [nonEmpty]

theorem semi_isSuffixOf (x : Text) : [';'].isSuffixOf (x ++ [';']) = true :=
  List.isSuffixOf_iff_suffix.mpr (List.suffix_append x _)

/-- The DDL that the server has is split into the table's statement and its indexes'. -/
theorem serverDdl_statements (schema tableName : Text) (describeTable : Except Text Table)
    (hserver : ServerHas rows table type indexes)
    (hstatements : ∀ x ∈ table :: indexes, IsStatement type x) :
    tableDdl type schema tableName rows describeTable = .ok (statementLines (table :: indexes)) ∧
      (statementRanges (statementLines (table :: indexes)) type).map
        (fun r => slice (statementLines (table :: indexes)) r.1 r.2) = table :: indexes := by
  refine ⟨?_, statements_of_lines hstatements⟩
  have hone : statementLines [table] = table ++ [';'] := by simp [statementLines]
  have hne : table ≠ [] := (hstatements table List.mem_cons_self).nonempty
  cases hserver with
  | redshift r h hcells =>
    simp only [tableDdl, h, joined_eq, hcells, bind, Except.bind, List.intercalate_singleton,
      nonEmpty_semi, hone]
  | openEnd type r htype h hcells hend =>
    have hddl : nonEmpty tableName table = .ok table := if_neg hne
    simp only [List.mem_cons, List.not_mem_nil, or_false] at htype
    rcases htype with rfl | rfl | rfl | rfl <;>
      simp only [tableDdl, h, joined_eq, hcells, bind, Except.bind, pure, Except.pure,
        List.intercalate_singleton, hddl, hend, hone, Bool.false_eq_true, if_false]
  | closedEnd type r htype h hcells =>
    simp only [List.mem_cons, List.not_mem_nil, or_false] at htype
    rcases htype with rfl | rfl | rfl | rfl <;>
      simp only [tableDdl, h, joined_eq, hcells, bind, Except.bind, pure, Except.pure,
        List.intercalate_singleton, nonEmpty_semi, semi_isSuffixOf, hone, if_true]
  | sqlite r indexes h hcells =>
    have hddl : statementLines (table :: indexes) ≠ [] := by simp [statementLines_eq]
    simp only [tableDdl, h, joined_eq, hcells, bind, Except.bind]
    exact if_neg hddl
  | duckdb r ri indexes h hcells hi hindexes =>
    simp only [tableDdl, h, hi, joined_eq, hcells, hindexes, bind, Except.bind, pure, Except.pure,
      List.intercalate_singleton, nonEmpty_semi, withIndexes_lines]
  | oracle r ri indexes h hcells hi hindexes =>
    simp only [tableDdl, h, hi, joined_eq, hcells, hindexes, bind, Except.bind, pure, Except.pure,
      List.intercalate_singleton, nonEmpty_semi, withIndexes_lines]

/-- A table and its index as SQLite has them. -/
theorem serverDdl_sqlite :
    let rows : DdlQuery → Except Text (List Row) := fun _ => .ok [
      ["CREATE TABLE t (a text DEFAULT ';');".toList], [NULL_SENTINEL],
      [" CREATE INDEX i ON t (a);\n".toList]]
    let xs := ["CREATE TABLE t (a text DEFAULT ';')".toList, "CREATE INDEX i ON t (a)".toList]
    tableDdl .SQLITE [] ['t'] rows (.error []) = .ok (statementLines xs) ∧
      (statementRanges (statementLines xs) .SQLITE).map
        (fun r => slice (statementLines xs) r.1 r.2) = xs :=
  serverDdl_statements _ _ _ (.sqlite _ ["CREATE INDEX i ON t (a)".toList] rfl (by decide +kernel))
    (by decide +kernel)

end Server

end DearSql.Ddl
