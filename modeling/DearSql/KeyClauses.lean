import DearSql.CassandraCatalog
import DearSql.MssqlCatalog
import DearSql.SqlBuilder

/-! The `PRIMARY KEY` clause of `tableDdl`, read back under the rules of CQL and of T-SQL,
for the tables that the Cassandra and the MSSQL backends describe. -/
namespace DearSql.KeyClauses

section Reading

inductive Lexeme
  | opening | closing | comma | name (n : Text)
  deriving DecidableEq

/-- The lexemes of a clause of quoted names; inside a name the closing quote is doubled. -/
def lexemes (o c : Char) : Option Text → Text → Option (List Lexeme)
  | none, [] => some []
  | some _, [] => none
  | none, x :: xs =>
    if x = o then lexemes o c (some []) xs
    else if x = ' ' then lexemes o c none xs
    else if x = '(' then (lexemes o c none xs).map (.opening :: ·)
    else if x = ')' then (lexemes o c none xs).map (.closing :: ·)
    else if x = ',' then (lexemes o c none xs).map (.comma :: ·)
    else none
  | some w, [x] => if x = c then some [.name w] else none
  | some w, x :: y :: xs =>
    if x = c then
      if y = c then lexemes o c (some (w ++ [c])) xs
      else (lexemes o c none (y :: xs)).map (.name w :: ·)
    else lexemes o c (some (w ++ [x])) (y :: xs)

/-- Names up to the closing parenthesis, and what follows it. -/
def names : List Lexeme → Option (List Text × List Lexeme)
  | .name n :: .closing :: ls => some ([n], ls)
  | .name n :: .comma :: ls => (names ls).map fun r => (n :: r.1, r.2)
  | _ => none

/-- `( a, b )` and nothing after it. -/
def nameList (ls : List Lexeme) : Option (List Text) :=
  match names ls with
  | some (ns, []) => some ns
  | _ => none

def clustering : List Lexeme → Option (List Text)
  | [.closing] => some []
  | .comma :: ls => nameList ls
  | _ => none

/-- CQL: the first component is the partition key, in parentheses when it is composite,
and the columns after it are the clustering columns. -/
def cqlKey : List Lexeme → Option (List Text × List Text)
  | .opening :: .opening :: ls =>
    (names ls).bind fun r => (clustering r.2).map fun cs => (r.1, cs)
  | .opening :: .name p :: ls => (clustering ls).map fun cs => ([p], cs)
  | _ => none

def sqlKey : List Lexeme → Option (List Text)
  | .opening :: ls => nameList ls
  | _ => none

def primaryKey : Text := "PRIMARY KEY ".toList

/-- The lexemes after `PRIMARY KEY` in the builder's line of that name. -/
def keyClause (b : Builder) (t : Table) : Option (List Lexeme) :=
  ((b.ddlLines t).find? primaryKey.isPrefixOf).bind fun line =>
    lexemes b.openQuote b.closeQuote none (line.drop primaryKey.length)

variable {o c : Char} {w rest : Text} {n : Text} {ns : List Text} {b : Builder} {t : Table}

theorem lexemes_doubling (hrest : rest.head? ≠ some c) :
    lexemes o c (some w) (doubling c n ++ c :: rest) =
      (lexemes o c none rest).map (.name (w ++ n) :: ·) := by
  induction n generalizing w with
  | nil =>
    cases rest with
    | nil => simp [doubling, lexemes]
    | cons y ys =>
      have hy : y ≠ c := by simpa using hrest
      simp [doubling, lexemes, hy]
  | cons x xs ih =>
    by_cases hx : x = c
    · subst hx
      simp [doubling, lexemes, ih]
    · obtain ⟨y, ys, hy⟩ : ∃ y ys, doubling c xs ++ c :: rest = y :: ys := by
        cases h : doubling c xs ++ c :: rest with
        | nil => simp at h
        | cons y ys => exact ⟨y, ys, rfl⟩
      have step : lexemes o c (some w) (x :: y :: ys) = lexemes o c (some (w ++ [x])) (y :: ys) := by
        simp [lexemes, hx]
      rw [doubling, if_neg hx, List.cons_append, hy, step, ← hy, ih]
      simp

theorem lexemes_quoteIdentifier (hrest : rest.head? ≠ some b.closeQuote) :
    lexemes b.openQuote b.closeQuote none (b.quoteIdentifier n ++ rest) =
      (lexemes b.openQuote b.closeQuote none rest).map (.name n :: ·) := by
  have := lexemes_doubling (o := b.openQuote) (w := []) (n := n) hrest
  simpa [Builder.quoteIdentifier, lexemes] using this

/-- The lexemes of names with commas between them and a parenthesis after the last. -/
def listed : List Text → List Lexeme
  | [] => [.closing]
  | [n] => [.name n, .closing]
  | n :: ns => .name n :: .comma :: listed ns

theorem lexemes_quoteList (b : Builder) (ns : List Text) :
    lexemes b.openQuote b.closeQuote none (b.quoteList ns ++ [')']) = some (listed ns) := by
  induction ns with
  | nil => cases b <;> decide
  | cons n ns ih =>
    cases ns with
    | nil =>
      have hclose : lexemes b.openQuote b.closeQuote none [')'] = some [.closing] := by
        cases b <;> decide
      have hhead : [')'].head? ≠ some b.closeQuote := by cases b <;> decide
      rw [Builder.quoteList, List.map_singleton, List.intercalate_singleton,
        lexemes_quoteIdentifier hhead, hclose]
      rfl
    | cons m ms =>
      have hcomma : ∀ q : Text, lexemes b.openQuote b.closeQuote none (',' :: ' ' :: q) =
          (lexemes b.openQuote b.closeQuote none q).map (.comma :: ·) := by
        intro q
        cases b <;> simp [lexemes, Builder.openQuote]
      have hsplit : b.quoteList (n :: m :: ms) ++ [')'] =
          b.quoteIdentifier n ++ (',' :: ' ' :: (b.quoteList (m :: ms) ++ [')'])) := by
        simp [Builder.quoteList, List.intercalate]
      rw [hsplit, lexemes_quoteIdentifier (by cases b <;> simp [Builder.closeQuote]), hcomma, ih]
      rfl

theorem names_listed (hns : ns ≠ []) : names (listed ns) = some (ns, []) := by
  induction ns with
  | nil => exact absurd rfl hns
  | cons n ns ih =>
    cases ns with
    | nil => rfl
    | cons m ms => simp [listed, names, ih]

def keyNames (t : Table) : List Text := (t.columns.filter (·.isPrimaryKey)).map (·.name)

theorem find_middle {q : Text → Bool} {l₁ l₂ l₃ : List Text} {line : Text} {P : Prop}
    [Decidable P] (h₁ : ∀ x ∈ l₁, q x = false) (h₂ : ∀ x ∈ l₂, q x = false)
    (h₃ : ∀ x ∈ l₃, q x = false) (hline : q line = true) :
    (l₁ ++ (if P then [line] else []) ++ l₂ ++ l₃).find? q = if P then some line else none := by
  have none_of {l : List Text} (h : ∀ x ∈ l, q x = false) : l.find? q = none :=
    List.find?_eq_none.mpr fun x hx => by simp [h x hx]
  simp only [List.find?_append, none_of h₁, none_of h₂, none_of h₃]
  split_ifs
  · simp [hline]
  · rfl

theorem not_primaryKey {x : Char} {xs : Text} (hx : x ≠ 'P') :
    primaryKey.isPrefixOf (x :: xs) = false := by
  have hp : primaryKey = 'P' :: "RIMARY KEY ".toList := by decide
  have hne : ('P' == x) = false := by simpa using hx.symm
  rw [hp, List.isPrefixOf, hne, Bool.false_and]

/-- No other line of the table begins with `PRIMARY KEY`. -/
theorem find_primaryKey (b : Builder) (t : Table) :
    (b.ddlLines t).find? primaryKey.isPrefixOf =
      if keyNames t ≠ [] then some (primaryKey ++ '(' :: (b.quoteList (keyNames t) ++ [')']))
      else none := by
  have columns : ∀ line ∈ t.columns.map b.ddlColumnLine, primaryKey.isPrefixOf line = false := by
    intro line hl
    obtain ⟨col, -, rfl⟩ := List.mem_map.mp hl
    exact not_primaryKey (x := b.openQuote) (by cases b <;> decide)
  have indexes : ∀ line ∈ ((t.indexes.filter Builder.ddlIndexKept).filter b.ddlIndexInline).map
      b.ddlIndexLine, primaryKey.isPrefixOf line = false := by
    intro line hl
    obtain ⟨idx, -, rfl⟩ := List.mem_map.mp hl
    exact not_primaryKey (x := 'C') (by decide)
  have foreignKeys : ∀ line ∈ (Builder.groupForeignKeys t.foreignKeys).map b.ddlForeignKeyLine,
      primaryKey.isPrefixOf line = false := by
    intro line hl
    obtain ⟨g, -, rfl⟩ := List.mem_map.mp hl
    unfold Builder.ddlForeignKeyLine
    split_ifs
    · exact not_primaryKey (x := 'F') (by decide)
    · exact not_primaryKey (x := 'C') (by decide)
  have hopen : "PRIMARY KEY (".toList = primaryKey ++ ['('] := by decide
  have line : "PRIMARY KEY (".toList ++ b.quoteList (keyNames t) ++ ")".toList =
      primaryKey ++ '(' :: (b.quoteList (keyNames t) ++ [')']) := by
    rw [hopen, List.append_assoc, List.append_assoc]
    rfl
  rw [← line]
  exact find_middle columns indexes foreignKeys (by
    rw [hopen, List.append_assoc, List.append_assoc]
    exact List.isPrefixOf_iff_prefix.mpr (List.prefix_append _ _))

theorem keyClause_eq (b : Builder) (t : Table) :
    keyClause b t = if keyNames t ≠ [] then some (.opening :: listed (keyNames t)) else none := by
  rw [keyClause, find_primaryKey]
  split_ifs
  · have hopen : lexemes b.openQuote b.closeQuote none
        ('(' :: (b.quoteList (keyNames t) ++ [')'])) =
          (lexemes b.openQuote b.closeQuote none (b.quoteList (keyNames t) ++ [')'])).map
            (.opening :: ·) := by
      cases b <;> simp [lexemes, Builder.openQuote]
    rw [Option.bind_some, List.drop_left, hopen, lexemes_quoteList]
    rfl
  · rfl

theorem line_in_joinLines {line : Text} {lines : List Text} (h : line ∈ lines) :
    line <:+: Builder.joinLines lines := by
  induction lines with
  | nil => simp at h
  | cons l ls ih =>
    have tail : ∃ a, Builder.joinLines (l :: ls) = "    ".toList ++ l ++ a ++ Builder.joinLines ls := by
      cases ls with
      | nil => exact ⟨"\n".toList, by simp [Builder.joinLines]⟩
      | cons m ms => exact ⟨",\n".toList, rfl⟩
    obtain ⟨a, ha⟩ := tail
    rw [ha]
    rcases List.mem_cons.mp h with rfl | h
    · exact ⟨"    ".toList, a ++ Builder.joinLines ls, by simp only [List.append_assoc]⟩
    · exact (ih h).trans (List.suffix_append _ _).isInfix

/-- The line that `keyClause` reads stands in the text of the DDL. -/
def ClauseInDdl (b : Builder) (t : Table) : Prop :=
  ∀ schema, ∀ line ∈ (b.ddlLines t).find? primaryKey.isPrefixOf, line <:+: b.tableDdl t schema

theorem clauseInDdl (b : Builder) (t : Table) : ClauseInDdl b t := fun _ _ hline =>
  (line_in_joinLines (List.mem_of_find?_eq_some hline)).trans
    ((List.infix_append _ _ _).trans (List.prefix_append _ _).isInfix)

end Reading

/-- What a T-SQL clause declares; without a clause there is no key. -/
def declaredKey : Option (List Lexeme) → Option (List Text)
  | none => some []
  | some ls => sqlKey ls

theorem cqlKey_listed (n : Text) (ns : List Text) :
    cqlKey (.opening :: listed (n :: ns)) = some ([n], ns) := by
  cases ns with
  | nil => rfl
  | cons m ms => simp [listed, cqlKey, clustering, nameList, names_listed]

theorem declaredKey_keyClause (b : Builder) (t : Table) :
    declaredKey (keyClause b t) = some (keyNames t) := by
  rw [keyClause_eq]
  split_ifs with h
  · simp [declaredKey, sqlKey, nameList, names_listed h]
  · rw [declaredKey, not_ne_iff.mp h]

variable {rows : List Cassandra.SchemaRow} {keyRows : List (List Text)}

/-- On Cassandra the clause of the DDL keeps a partition key of one column; on MSSQL it keeps a key
whose columns stand in table order. -/
theorem keyClause_right_iff (c : Cassandra.ServerTable) (m : Mssql.ServerTable)
    (hc : rows.Perm c.schemaRows) (hm : m.IsKeyRows keyRows)
    (schema tableName : Text) (foreignKeyRows indexRows : List (List Text)) :
    let cassandra := Cassandra.describeTable schema tableName (some rows)
    let mssql := Mssql.describeTableInSchema schema tableName m.columnRows keyRows foreignKeyRows
      indexRows
    ClauseInDdl .Cassandra cassandra ∧ ClauseInDdl .MSSQL mssql ∧
      ((keyClause .Cassandra cassandra).bind cqlKey =
        some (c.partition.map (·.1), c.clustering.map (·.1)) ↔ c.partition.length = 1) ∧
      (declaredKey (keyClause .MSSQL mssql) = some m.key ↔
        m.key.Sublist (m.columns.map (·.1))) := by
  refine ⟨clauseInDdl _ _, clauseInDdl _ _, ?_, ?_⟩
  · have hk : keyNames (Cassandra.describeTable schema tableName (some rows)) = c.keyNames :=
      c.loadColumns_keys hc
    obtain ⟨p, ps, hp⟩ := List.exists_cons_of_ne_nil c.partition_ne_nil
    have hcons : c.keyNames = p.1 :: (ps.map (·.1) ++ c.clustering.map (·.1)) := by
      rw [Cassandra.ServerTable.keyNames, hp]
      rfl
    rw [keyClause_eq, hk, hcons, if_pos (List.cons_ne_nil _ _), Option.bind_some, cqlKey_listed, hp]
    cases ps with
    | nil => simp
    | cons q qs => simp
  · have hk : keyNames (Mssql.describeTableInSchema schema tableName m.columnRows keyRows
        foreignKeyRows indexRows) = (m.columns.map (·.1)).filter (m.key.contains ·) :=
      m.flagged_names hm
    rw [declaredKey_keyClause, hk, Option.some_inj]
    constructor
    · intro h
      rw [← h]
      exact List.filter_sublist
    · intro h
      have hself : m.key.filter (m.key.contains ·) = m.key :=
        List.filter_eq_self.mpr fun n hn => List.contains_iff_mem.mpr hn
      have hsub : m.key.Sublist ((m.columns.map (·.1)).filter (m.key.contains ·)) := by
        simpa only [hself] using h.filter (m.key.contains ·)
      refine (hsub.eq_of_length_le ?_).symm
      exact (m.nodup.filter _).length_le_of_subset fun n hn =>
        List.contains_iff_mem.mp (List.mem_filter.mp hn).2

section Tables

def exampleTable (partition clustering : List Text) (h : partition ≠ []) :
    Cassandra.ServerTable where
  partition := partition.map fun n => (n, ['i', 'n', 't'])
  clustering := clustering.map fun n => (n, ['i', 'n', 't'])
  others := []
  partition_ne_nil := by simpa using h
  others_kind := by simp

/-- The columns `a` and `b`, both in the key. -/
def exampleKeyed (key : List Text) (h : key.Perm [['a'], ['b']]) : Mssql.ServerTable where
  columns := [(['a'], ['i', 'n', 't'], [], [], []), (['b'], ['i', 'n', 't'], [], [], [])]
  key := key
  nodup := by simp
  key_nodup := h.nodup_iff.mpr (by simp)
  key_subset := h.subset

theorem keys_kept :
    (keyClause .Cassandra (Cassandra.describeTable [] ['t']
        (some (exampleTable [['a']] [['c']] (by simp)).schemaRows))).bind cqlKey =
      some ([['a']], [['c']]) ∧
    declaredKey (keyClause .MSSQL (Mssql.describeTableInSchema [] ['t']
        (exampleKeyed [['a'], ['b']] (.refl _)).columnRows [[['b']], [['a']]] [] [])) =
      some [['a'], ['b']] := by
  have h := keyClause_right_iff (exampleTable [['a']] [['c']] (by simp))
    (exampleKeyed [['a'], ['b']] (.refl _)) (.refl _) ⟨[['b'], ['a']], .swap _ _ _, rfl⟩
    [] ['t'] [] []
  exact ⟨h.2.2.1.mpr rfl, h.2.2.2.mpr (.refl _)⟩

/-- The key `((a, b), c)` becomes `(a, b, c)`, and the key `(b, a)` becomes `(a, b)`. -/
theorem keys_flattened :
    (keyClause .Cassandra (Cassandra.describeTable [] ['t']
        (some (exampleTable [['a'], ['b']] [['c']] (by simp)).schemaRows))).bind cqlKey ≠
      some ([['a'], ['b']], [['c']]) ∧
    declaredKey (keyClause .MSSQL (Mssql.describeTableInSchema [] ['t']
        (exampleKeyed [['b'], ['a']] (.swap _ _ _)).columnRows [[['b']], [['a']]] [] [])) ≠
      some [['b'], ['a']] := by
  have hc : keyNames (Cassandra.describeTable [] ['t']
      (some (exampleTable [['a'], ['b']] [['c']] (by simp)).schemaRows)) =
        [['a'], ['b'], ['c']] :=
    (exampleTable [['a'], ['b']] [['c']] (by simp)).loadColumns_keys (.refl _)
  have hm : keyNames (Mssql.describeTableInSchema [] ['t']
      (exampleKeyed [['b'], ['a']] (.swap _ _ _)).columnRows [[['b']], [['a']]] [] []) =
        [['a'], ['b']] :=
    (exampleKeyed [['b'], ['a']] (.swap _ _ _)).flagged_names ⟨[['b'], ['a']], .refl _, rfl⟩
  rw [declaredKey_keyClause, keyClause_eq, hc, hm]
  decide

end Tables

end DearSql.KeyClauses
