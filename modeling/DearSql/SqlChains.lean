import DearSql.SqlForms

/-! The pieces of generated SQL keep apart: nothing a builder puts next to a piece runs into it. -/
namespace DearSql
namespace Builder

variable (b : Builder)

section Parts

theorem namesOf_ne (schema name : Text) : namesOf schema name ≠ [] := by
  unfold namesOf
  split_ifs <;> simp

/-- Names in parentheses, closed. -/
theorem chained_names {ps : List Piece} (names : List Text) (hp : Clause ps) :
    chained (namePieces names ++ ps) = true := chained_append (chained_namePieces names) hp

theorem clause_close : Clause [.fixed ")"] := Clause.closed (by simp) Clause.nil

theorem clause_notNull : Clause [.fixed " NOT NULL"] :=
  Clause.closed (by simp) Clause.nil

theorem clause_autoIncrement (type : DatabaseType) : Clause (autoIncrementPieces type) := by
  cases type with
  | MYSQL | MARIADB | TIDB | SQLITE | MSSQL | ORACLE =>
    exact Clause.closed (by simp) Clause.nil
  | _ => exact Clause.nil

theorem chained_commentOn (schema tableName name comment : Text) :
    chained (commentOnPieces schema tableName name comment) = true :=
  chained_lead (by simp) (chained_path (by simp)
    (Clause.link (by simp) (chained_literal comment Clause.nil)))

theorem clause_comment (col : Column) : Clause (commentPieces col) :=
  Clause.opt (Clause.link (by simp) (chained_literal col.comment Clause.nil)) _

end Parts

section CreateTable

theorem clause_columnClauses (col : Column) : Clause (b.columnClauses col) := by
  have hpk : Clause [.fixed " PRIMARY KEY AUTOINCREMENT"] :=
    Clause.closed (by simp) Clause.nil
  exact (((hpk.opt _).append (clause_notNull.opt _)).append ((clause_autoIncrement _).opt _)).append
    ((clause_comment col).opt _)

theorem chained_createColumn (col : Column) : chained (b.createColumnPieces col) = true :=
  chained_path (by simp) (Clause.link (by simp)
    (chained_verbatim _ (b.clause_columnClauses col)))

theorem clause_columns (i : ℕ) (cols : List Column) : Clause (b.columnsPieces (i + 1) cols) := by
  induction cols generalizing i with
  | nil => exact Clause.nil
  | cons col cols ih =>
    rw [columnsPieces, if_pos (Nat.succ_pos i), List.append_assoc]
    have hcols := chained_append (b.chained_createColumn col) (ih (i + 1))
    exact Clause.link (s := ", ") (by simp) hcols

theorem chained_columns (cols : List Column) : chained (b.columnsPieces 0 cols) = true := by
  cases cols with
  | nil => rfl
  | cons col cols =>
    rw [columnsPieces, if_neg (Nat.lt_irrefl 0), List.nil_append]
    exact chained_append (b.chained_createColumn col) (b.clause_columns 0 cols)

theorem clause_createTail (table : Table) (schemaPrefix : Text) :
    Clause (b.createTail table schemaPrefix) := by
  have hpk : Clause (pkPieces (b.trailingPk table.columns)) :=
    Clause.opt (Clause.link (by simp) (chained_names _ clause_close)) _
  have htable : Clause (tableCommentPieces table.comment) :=
    Clause.closed (by simp)
      (Clause.opt (Clause.link (by simp) (chained_literal _ Clause.nil)) _)
  have hcolumn : ∀ col ∈ table.columns, Clause (commentStatementPieces schemaPrefix table.name col) :=
    fun col _ => Clause.opt
      (Clause.link (by simp) (chained_commentOn _ _ _ _)) _
  exact ((hpk.append clause_close).append (htable.opt _)).append ((Clause.flatMap hcolumn).opt _)

theorem chained_createTable (table : Table) (schemaPrefix : Text) :
    chained (b.createTablePieces table schemaPrefix) = true :=
  chained_lead (by simp) (chained_path (namesOf_ne _ _)
    (Clause.link (by simp)
      (chained_append (b.chained_columns table.columns) (b.clause_createTail table schemaPrefix))))

end CreateTable

section TableDdl

theorem chained_ddlColumn (col : Column) : chained (b.ddlColumnPieces col) = true := by
  have hdefault : Clause [.fixed " DEFAULT ", .verbatim col.defaultValue] :=
    Clause.link (by simp) (chained_verbatim _ Clause.nil)
  exact chained_path (by simp) (Clause.link (by simp) (chained_verbatim _
    (((hdefault.opt _).append ((clause_autoIncrement _).opt _)).append (clause_notNull.opt _))))

theorem chained_ddlIndex (idx : Index) : chained (ddlIndexPieces idx) = true :=
  chained_lead (by simp) (chained_path (by simp)
    (Clause.link (by simp) (chained_names _ clause_close)))

theorem chained_ddlIndexAfter (schemaPrefix tableName : Text) (idx : Index) :
    chained (ddlIndexAfterPieces schemaPrefix tableName idx) = true := by
  have hend : Clause [.fixed ");"] := Clause.link (by simp) chained_nil
  have hnames := Clause.link (s := " (") (by simp) (chained_names idx.columns hend)
  have hon := Clause.link (s := " ON ") (by simp)
    (chained_path (namesOf_ne schemaPrefix tableName) hnames)
  exact chained_lead (by simp) (chained_path (by simp) hon)

theorem clause_ddlAction {clause : String} (h : clause ∈ linkPhrases) (action : Text) :
    Clause (ddlActionPieces clause action) :=
  Clause.opt (Clause.link h (chained_verbatim action Clause.nil)) _

theorem chained_ddlForeignKey (g : Text × List ForeignKey) :
    chained (ddlForeignKeyPieces g) = true := by
  have hactions := (@clause_ddlAction " ON DELETE " (by simp)
    ((g.2.head?.map (·.onDelete)).getD [])).append
    (@clause_ddlAction " ON UPDATE " (by simp)
      ((g.2.head?.map (·.onUpdate)).getD []))
  have hclose := Clause.closed (s := ")") (by simp) hactions
  have htargets := Clause.link (s := " (") (by simp)
    (chained_names (g.2.map (·.targetColumn)) hclose)
  have htable := @chained_path _ [(g.2.head?.map (·.targetTable)).getD []] (by simp) htargets
  have hkey := chained_lead (s := "FOREIGN KEY (") (by simp)
    (chained_names (g.2.map (·.sourceColumn))
      (Clause.link (s := ") REFERENCES ") (by simp) htable))
  unfold ddlForeignKeyPieces
  split_ifs
  · exact hkey
  · exact chained_lead (by simp) (chained_path (by simp)
      (Clause.link (by simp) hkey))

theorem chained_ddlLines (table : Table) : ∀ l ∈ b.ddlLinePieces table, chained l = true := by
  intro l hl
  simp only [ddlLinePieces, List.mem_append, List.mem_map] at hl
  rcases hl with ((⟨col, -, rfl⟩ | hpk) | ⟨idx, -, rfl⟩) | ⟨g, -, rfl⟩
  · exact b.chained_ddlColumn col
  · split_ifs at hpk
    · obtain rfl := List.mem_singleton.mp hpk
      exact chained_lead (by simp) (chained_names _ clause_close)
    · simp at hpk
  · exact chained_ddlIndex idx
  · exact chained_ddlForeignKey g

theorem chained_joinPieces {ls : List (List Piece)} (h : ∀ l ∈ ls, chained l = true)
    {ps : List Piece} (hp : chained ps = true) : chained (joinPieces ls ++ ps) = true := by
  induction ls with
  | nil => exact hp
  | cons l ls ih =>
    have hl := h l (by simp)
    cases ls with
    | nil =>
      rw [joinPieces, List.cons_append, List.append_assoc]
      exact (Clause.link (by simp) (chained_append hl (Clause.link (by simp) hp))).2
    | cons m ms =>
      have ih := ih fun l' hl' => h l' (by simp [hl'])
      have hjoin : joinPieces (l :: m :: ms) =
          .fixed "    " :: (l ++ .fixed ",\n" :: joinPieces (m :: ms)) := rfl
      rw [hjoin, List.cons_append, List.append_assoc, List.cons_append]
      exact (Clause.link (by simp) (chained_append hl (Clause.link (by simp) ih))).2

theorem chained_tableDdl (table : Table) (schemaPrefix : Text) :
    chained (b.tableDdlPieces table schemaPrefix) = true := by
  have hafter : ∀ idxs : List Index, Clause (idxs.flatMap fun idx =>
      .fixed "\n" :: ddlIndexAfterPieces schemaPrefix table.name idx) := fun idxs =>
    Clause.flatMap fun idx _ => Clause.link (by simp)
      (chained_ddlIndexAfter schemaPrefix table.name idx)
  exact chained_lead (by simp) (chained_path (namesOf_ne _ _)
    (Clause.link (by simp) (chained_joinPieces (b.chained_ddlLines table)
      (Clause.link (by simp) (hafter _).2).2)))

end TableDdl

section Columns

theorem clause_notNullOf (col : Column) : Clause (notNullPieces col) := clause_notNull.opt _

theorem clause_unique (col : Column) : Clause (uniquePieces col) :=
  Clause.opt (Clause.closed (by simp) Clause.nil) _

theorem clause_default (col : Column) : Clause (defaultPieces col) :=
  Clause.opt (Clause.link (by simp) (chained_verbatim _ Clause.nil)) _

theorem clause_autoIncrementOf (col : Column) : Clause (b.autoIncrementOfPieces col) :=
  (clause_autoIncrement _).opt _

theorem clause_addClauses (schema tableName : Text) (col : Column) :
    Clause (b.addClauses schema tableName col) := by
  have hn := clause_notNullOf col
  have hu := clause_unique col
  have hd := clause_default col
  have hcomment : Clause (if col.comment ≠ [] then
      .fixed "; " :: commentOnPieces schema tableName col.name col.comment else []) :=
    Clause.opt (Clause.link (by simp) (chained_commentOn _ _ _ _)) _
  cases b with
  | PostgreSQL => exact ((hn.append hu).append hd).append hcomment
  | MySQL =>
    exact (((hn.append (clause_autoIncrementOf _ col)).append hu).append hd).append
      (clause_comment col)
  | MSSQL | Oracle => exact (((clause_autoIncrementOf _ col).append hn).append hu).append hd
  | SQLite => exact (hn.append hu).append hd
  | DuckDB => exact hd.append hn
  | Cassandra => exact Clause.nil

theorem chained_alterTable {clause : String} (h : clause ∈ linkPhrases) (schema tableName col : Text) :
    chained (alterTablePieces schema tableName clause col) = true :=
  chained_lead (by simp) (chained_path (namesOf_ne _ _)
    (Clause.link h (chained_path (by simp) Clause.nil)))

theorem chained_addColumn (schema tableName : Text) (col : Column) :
    chained (b.addColumnPieces schema tableName col) = true := by
  have hclause : b.addClause ∈ linkPhrases := by cases b <;> simp [addClause]
  exact chained_append (chained_alterTable hclause _ _ _) (Clause.link (by simp)
    (chained_verbatim _ (b.clause_addClauses schema tableName col)))

theorem chained_dropColumn (schema tableName columnName : Text) :
    chained (b.dropColumnPieces schema tableName columnName) = true := by
  refine chained_alterTable ?_ _ _ _
  split_ifs <;> simp

theorem chained_renameColumn (schema tableName oldColumnName newColumnName : Text) :
    chained (renameColumnPieces schema tableName oldColumnName newColumnName) = true :=
  chained_append (chained_alterTable (by simp) _ _ _)
    (Clause.link (by simp) (chained_path (by simp) Clause.nil))

end Columns

section Tables

theorem chained_intercalate {s : String} (hs : s ∈ linkPhrases) {ls : List (List Piece)}
    (h : ∀ l ∈ ls, chained l = true) : chained ([.fixed s].intercalate ls) = true := by
  induction ls with
  | nil => rfl
  | cons l ls ih =>
    cases ls with
    | nil => simpa [List.intercalate] using h l (by simp)
    | cons m ms =>
      have hl : [Piece.fixed s].intercalate (l :: m :: ms) =
          l ++ .fixed s :: [.fixed s].intercalate (m :: ms) := by simp [List.intercalate]
      rw [hl]
      exact chained_append (h l (by simp)) (Clause.link hs (ih fun x hx => h x (by simp [hx])))

theorem chained_alterColumn (schema tableName : Text) (col : Column) :
    chained (b.alterColumnPieces schema tableName col) = true := by
  have hstatements : ∀ l ∈ alterStatementPieces schema tableName col, chained l = true := by
    have halter : ∀ ps, Clause ps →
        chained (alterTablePieces schema tableName " ALTER COLUMN " col.name ++ ps) = true :=
      fun ps => chained_append (chained_alterTable (by simp) _ _ _)
    intro l hl
    simp only [alterStatementPieces, List.mem_append, List.mem_cons, List.not_mem_nil, or_false] at hl
    rcases hl with (rfl | rfl | rfl) | hl
    · exact halter _ (Clause.link (by simp) (chained_verbatim _ Clause.nil))
    · refine halter _ (Clause.closed ?_ Clause.nil)
      split_ifs <;> simp
    · split_ifs
      · exact halter _ (Clause.link (by simp) (chained_verbatim _ Clause.nil))
      · exact halter _ (Clause.closed (by simp) Clause.nil)
    · split_ifs at hl
      · obtain rfl := List.mem_singleton.mp hl
        exact chained_commentOn _ _ _ _
      · simp at hl
  have hmodify : chained (Builder.MySQL.alterColumnPieces schema tableName col) = true :=
    chained_append (chained_alterTable (by simp) _ _ _)
      (Clause.link (by simp) (chained_verbatim _ ((((clause_notNullOf col).append
        (clause_autoIncrementOf _ col)).append (clause_default col)).append (clause_comment col))))
  cases b with
  | MySQL => exact hmodify
  | _ => exact chained_intercalate (by simp) hstatements

theorem chained_renameTable (schema oldName newName : Text) :
    chained (b.renameTablePieces schema oldName newName) = true := by
  unfold renameTablePieces
  split_ifs <;> exact chained_lead (by simp) (chained_path (namesOf_ne _ _)
    (Clause.link (by simp) (chained_path (by simp) Clause.nil)))

theorem chained_dropTable (schema tableName : Text) :
    chained (b.dropTablePieces schema tableName) = true := by
  have hform : ∀ s ∈ leadPhrases, chained [.fixed s, .path (namesOf schema tableName)] = true :=
    fun s hs => chained_lead hs (chained_path (namesOf_ne _ _) Clause.nil)
  cases b with
  | Oracle => exact chained_lead (by simp) (chained_path (namesOf_ne _ _) (Clause.closed (by simp) Clause.nil))
  | _ => exact hform _ (by simp)

theorem chained_truncateTable (schema tableName : Text) :
    chained (b.truncateTablePieces schema tableName) = true := by
  unfold truncateTablePieces
  refine chained_lead ?_ (chained_path (namesOf_ne _ _) Clause.nil)
  split_ifs <;> simp

theorem chained_verbatimList (texts : List Text) : chained (verbatimList texts) = true := by
  refine chained_intercalate (by simp) fun l hl => ?_
  obtain ⟨s, -, rfl⟩ := List.mem_map.mp hl
  exact chained_verbatim s Clause.nil

theorem chained_insertRow (schema tableName : Text) (columnNames valueLiterals : List Text) :
    chained (insertRowPieces schema tableName columnNames valueLiterals) = true := by
  have hvalues := Clause.link (s := ") VALUES (") (by simp)
    (chained_append (chained_verbatimList ((columnNames.zip valueLiterals).map (·.2))) clause_close)
  have hnames := Clause.link (s := " (") (by simp)
    (chained_names ((columnNames.zip valueLiterals).map (·.1)) hvalues)
  exact chained_lead (by simp) (chained_path (namesOf_ne _ _) hnames)

theorem chained_updateRow (schema tableName : Text) (assignments : List (Text × Text))
    (whereExpr : Text) :
    chained (updateRowPieces schema tableName assignments whereExpr) = true := by
  have hset : chained ([.fixed ", "].intercalate (assignments.map assignmentPieces)) = true := by
    refine chained_intercalate (by simp) fun l hl => ?_
    obtain ⟨a, -, rfl⟩ := List.mem_map.mp hl
    exact chained_path (by simp) (Clause.link (by simp)
      (chained_verbatim a.2 Clause.nil))
  have hwhere := Clause.link (s := " WHERE ") (by simp)
    (chained_verbatim whereExpr Clause.nil)
  have hsets := Clause.link (s := " SET ") (by simp) (chained_append hset hwhere)
  exact chained_lead (by simp) (chained_path (namesOf_ne _ _) hsets)

end Tables
end Builder
end DearSql
