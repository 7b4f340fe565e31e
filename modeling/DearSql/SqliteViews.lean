import DearSql.SqlBuilder
import DearSql.SqliteExecute
import DearSql.TokenScan
import DearSql.Types

/-! The catalog calls of a `SQLiteDatabaseNode`, and the view bodies that `views` cuts out of the
stored statements. -/
namespace DearSql.Sqlite
open Fetches

section Catalog

abbrev Row := List Cell

/-- The database: what `sqlite3_step` answers to a query call after call, or the `sqlite3_errmsg`
of its preparation; a text may be bound to the query's parameter. -/
abbrev Queries := Text → Option Text → Except Text (List (Fetch Row Text))

def textAt (row : Row) (col : ℕ) : Text := columnText (row.getD col .null) false

/-- `sqlite3_column_int`, which reads a text as a number. -/
def intAt (row : Row) (col : ℕ) : ℤ := atoi (textAt row col)

def rowsOf : List (Fetch Row Text) → Except Text (List Row)
  | [] => .ok []
  | .failed errmsg :: _ => .error errmsg
  | .row row :: rest => (rowsOf rest).map (row :: ·)

variable (db : Queries) (connName : Text)

/-- Every row of a query; an error is thrown. -/
def queryRows (sql : Text) : Except Text (List Row) := (db sql none).bind rowsOf

def sizeQuery : Text :=
  ("SELECT SUM(d.pgsize) FROM sqlite_master m LEFT JOIN dbstat d ON d.name = m.name " ++
    "WHERE m.tbl_name = ? AND m.type IN ('table', 'index')").toList

/-- The size, where `dbstat` is compiled in. -/
def getTableSizeBytes (tableName : Text) : ℤ :=
  match db sizeQuery (some tableName) with
  | .ok (.row row :: _) => if row.getD 0 .null = .null then -1 else intAt row 0
  | _ => -1

def pragma (name argument : Text) : Text :=
  "PRAGMA ".toList ++ name ++ "(".toList ++ quoteIdent argument ++ ")".toList

def column (row : Row) : Column :=
  { name := textAt row 1, type := textAt row 2, isNotNull := intAt row 3 ≠ 0
    defaultValue := textAt row 4, isPrimaryKey := intAt row 5 ≠ 0 }

def foreignKey (tn : Text) (row : Row) : ForeignKey :=
  { name := "fk_".toList ++ tn ++ "_".toList ++ textAt row 3
    targetTable := textAt row 2, sourceColumn := textAt row 3, targetColumn := textAt row 4
    onUpdate := textAt row 5, onDelete := textAt row 6 }

def index (row : Row) : Index :=
  { name := textAt row 1, isUnique := intAt row 2 ≠ 0, isPrimary := textAt row 3 = "pk".toList
    type := "BTREE".toList }

def load (tn : Text) (isView : Bool) : Except Text Table := do
  let columns ← queryRows db (pragma "table_info".toList tn)
  let t : Table :=
    { name := tn, fullName := connName ++ ".".toList ++ tn, columns := columns.map column }
  if isView then return t
  let keys ← queryRows db (pragma "foreign_key_list".toList tn)
  let list ← queryRows db (pragma "index_list".toList tn)
  let indexes ← (list.map index).mapM fun idx => do
    let info ← queryRows db (pragma "index_info".toList idx.name)
    return { idx with columns := info.map (textAt · 2) }
  return { t with
    foreignKeys := keys.map (foreignKey tn)
    indexes
    sizeBytes := getTableSizeBytes db tn }

/-- What stands behind the first ` AS `. -/
def viewDefinition (sql : Text) : Text :=
  match find " AS ".toList sql with
  | some pos => sql.drop (pos + 4)
  | none => []

def viewsQuery : Text := "SELECT name, sql FROM sqlite_master WHERE type='view' ORDER BY name".toList

def view (row : Row) : Except Text Table := do
  let v ← load db connName (textAt row 0) true
  return { v with definition := viewDefinition (textAt row 1) }

def views : Except Text (List Table) := do
  let rows ← queryRows db viewsQuery
  rows.mapM (view db connName)

end Catalog

section Grammar

/-- What may stand between two words. -/
inductive Separator
  | blank (c : Char) (h : isspace c = true)
  | lineComment (content : Text) (h : '\n' ∉ content)
  | comment (content : Text) (h : ¬"*/".toList <:+: content)

def Separator.text : Separator → Text
  | .blank c _ => [c]
  | .lineComment content _ => "--".toList ++ content ++ ['\n']
  | .comment content _ => "/*".toList ++ content ++ "*/".toList

abbrev Gap := List Separator

def Gap.text (g : Gap) : Text := g.flatMap Separator.text

/-- A word in any letter case. -/
abbrev Spelled (word : Text) := {t : Text // lower t = word}

/-- A name as it is written. -/
inductive Name
  | bare (word : Text) (hne : word ≠ [])
      (h : ∀ c ∈ word, isalnum c = true ∨ c = '_' ∨ c = '$' ∨ 128 ≤ c.toNat)
  | quoted (quote : Char) (hquote : quote ∈ ['"', '`', '\'']) (name : Text)
  | bracketed (name : Text) (h : ']' ∉ name)

def Name.text : Name → Text
  | .bare word _ _ => word
  | .quoted quote _ name => quote :: doubling quote name ++ [quote]
  | .bracketed name _ => '[' :: name ++ [']']

def Name.isBare : Name → Bool
  | .bare .. => true
  | _ => false

/-- The names of a view's columns, each with what stands around it. -/
structure ColumnList where
  gap : Gap
  names : List (Gap × Name × Gap)
  hne : names ≠ []

def ColumnList.text (l : ColumnList) : Text :=
  l.gap.text ++ '(' :: [','].intercalate (l.names.map fun n => n.1.text ++ n.2.1.text ++ n.2.2.text) ++
    [')']

/-- A stored `CREATE VIEW`. Words stand apart where no quote or bracket is between them. -/
structure ViewStatement where
  create : Spelled "create".toList
  temp : Option (Gap × {t : Text // lower t = "temp".toList ∨ lower t = "temporary".toList})
  htemp : ∀ t ∈ temp, t.1 ≠ []
  gapView : Gap
  hview : gapView ≠ []
  view : Spelled "view".toList
  gapName : Gap
  name : Name
  hname : name.isBare = true → gapName ≠ []
  columns : Option ColumnList
  gapAs : Gap
  hgapAs : name.isBare = true → columns = none → gapAs ≠ []
  as : Spelled "as".toList
  gapSelect : Gap
  hselect : gapSelect ≠ []
  select : Text
  starts : ∃ c rest, select = c :: rest ∧ isalpha c = true

namespace ViewStatement

def before (v : ViewStatement) : Text :=
  v.create.1 ++ (v.temp.elim [] fun t => t.1.text ++ t.2.1) ++ v.gapView.text ++ v.view.1 ++
    v.gapName.text ++ v.name.text ++ (v.columns.elim [] ColumnList.text) ++ v.gapAs.text

def after (v : ViewStatement) : Text := v.gapSelect.text ++ v.select

def text (v : ViewStatement) : Text := v.before ++ v.as.1 ++ v.after

/-- The text after the keyword, up to blanks in front of it. -/
def HasBody (v : ViewStatement) (definition : Text) : Prop :=
  definition.dropWhile isspace = v.after.dropWhile isspace

instance (v : ViewStatement) (definition : Text) : Decidable (v.HasBody definition) :=
  inferInstanceAs (Decidable (_ = _))

/-- The keyword is the first ` AS ` of the text. -/
structure CutsAtKeyword (v : ViewStatement) : Prop where
  upper : v.as.1 = "AS".toList
  blankBefore : v.before.getLast? = some ' '
  blankAfter : v.after.head? = some ' '
  first : ¬" AS ".toList <:+: v.before

end ViewStatement

end Grammar

section Cut

variable {pat b m a x : Text}

/-- A pattern of the text is found, there or before. -/
theorem find_middle_le (pat b a : Text) : ∃ e ≤ b.length, find pat (b ++ pat ++ a) = some e := by
  induction b with
  | nil =>
    refine ⟨0, le_rfl, ?_⟩
    cases h : pat ++ a with
    | nil =>
      obtain ⟨rfl, rfl⟩ := List.append_eq_nil_iff.mp h
      rfl
    | cons c cs =>
      have hpre : pat.isPrefixOf (c :: cs) = true := h ▸ List.isPrefixOf_iff_prefix.mpr ⟨a, rfl⟩
      rw [List.nil_append, h, find, if_pos hpre]
  | cons c b ih =>
    obtain ⟨e, he, hfind⟩ := ih
    rw [List.cons_append, List.cons_append, find]
    split_ifs with hpre
    · exact ⟨0, Nat.zero_le _, rfl⟩
    · rw [hfind]
      exact ⟨e + 1, Nat.succ_le_succ he, rfl⟩

theorem not_infix_of_find_eq_none {s : Text} (h : find pat s = none) : ¬pat <:+: s := by
  rintro ⟨b, a, rfl⟩
  obtain ⟨e, -, he⟩ := find_middle_le pat b a
  rw [h] at he
  cases he

/-- Texts that differ by their blanks in front differ by blanks only. -/
theorem all_of_dropWhile_append {p : Char → Bool} (h : (x ++ m).dropWhile p = m.dropWhile p) :
    ∀ c ∈ x, p c = true := by
  by_contra hno
  have hne : (x.dropWhile p).isEmpty = false := by
    rw [List.isEmpty_eq_false_iff]
    exact fun he => hno (List.dropWhile_eq_nil_iff.mp he)
  have hlen : 0 < (x.dropWhile p).length := by
    rw [List.length_pos_iff]
    simpa using hne
  rw [List.dropWhile_append, hne, if_neg Bool.false_ne_true] at h
  have hcut := congrArg List.length h
  have hle := (List.dropWhile_suffix (l := m) p).length_le
  rw [List.length_append] at hcut
  omega

variable {y z : Char} {pos : ℕ}

/-- A cut that leaves the text behind `y z` was made around these two. -/
theorem cut_around (hz : isspace z = false) (hfind : find " AS ".toList (b ++ y :: z :: a) = some pos)
    (hcut : ((b ++ y :: z :: a).drop (pos + 4)).dropWhile isspace = a.dropWhile isspace) :
    pos + 1 = b.length := by
  have hsplit : b ++ y :: z :: a = b ++ [y, z] ++ a := by simp
  have hlen : (b ++ [y, z]).length = b.length + 2 := by simp
  have hz_at : (b ++ y :: z :: a)[b.length + 1]? = some z := by simp
  by_contra hpos
  rcases Nat.lt_or_ge (pos + 4) (b.length + 3) with hlt | hge
  · -- behind the cut there is `z`, unless the pattern ends with it
    rcases Nat.lt_or_ge (pos + 4) (b.length + 2) with hin | hend
    · rw [hsplit, List.drop_append_of_le_length (by omega)] at hcut
      have hmem : z ∈ (b ++ [y, z]).drop (pos + 4) := by
        rw [List.drop_append]
        refine List.mem_append_right _ ?_
        rw [List.mem_iff_getElem?]
        refine ⟨1 - (pos + 4 - b.length), ?_⟩
        rw [List.getElem?_drop]
        have : pos + 4 - b.length + (1 - (pos + 4 - b.length)) = 1 := by omega
        rw [this]
        rfl
      rw [all_of_dropWhile_append hcut z hmem] at hz
      cases hz
    · have hlast := find_getElem? hfind (i := 3) (by decide)
      have he : pos + 3 = b.length + 1 := by omega
      rw [he, hz_at] at hlast
      obtain rfl := Option.some_inj.mp hlast
      exact absurd hz (by decide)
  · -- the text in front of the cut has the `S` of the pattern
    obtain ⟨k, rfl⟩ : ∃ k, pos = b.length + k := ⟨pos - b.length, by omega⟩
    have hdrop : (b ++ y :: z :: a).drop (b.length + k + 4) = a.drop (k + 2) := by
      rw [hsplit, List.drop_append, List.drop_eq_nil_of_le (by omega), List.nil_append, hlen]
      congr 1
      omega
    rw [hdrop] at hcut
    nth_rewrite 2 [← List.take_append_drop (k + 2) a] at hcut
    have hS := find_getElem? hfind (i := 2) (by decide)
    have ha : a[k]? = some 'S' := by
      rw [hsplit, List.getElem?_append_right (by omega), hlen] at hS
      have : b.length + k + 2 - (b.length + 2) = k := by omega
      rw [this] at hS
      exact hS
    have hmem : 'S' ∈ a.take (k + 2) := by
      rw [List.mem_iff_getElem?]
      exact ⟨k, by rw [List.getElem?_take_of_lt (by omega), ha]⟩
    exact absurd (all_of_dropWhile_append hcut.symm 'S' hmem) (by decide)

/-- What a pattern around `y z` says about the text. -/
theorem chars_of_around (hfind : find " AS ".toList (b ++ y :: z :: a) = some pos)
    (hpos : pos + 1 = b.length) :
    [y, z] = "AS".toList ∧ b.getLast? = some ' ' ∧ a.head? = some ' ' ∧ ¬" AS ".toList <:+: b := by
  have hchar (i : ℕ) (hi : i < 4) := find_getElem? hfind hi
  have h0 := hchar 0 (by decide)
  have h1 := hchar 1 (by decide)
  have h2 := hchar 2 (by decide)
  have h3 := hchar 3 (by decide)
  rw [List.getElem?_append_left (by omega)] at h0
  rw [List.getElem?_append_right (by omega)] at h1 h2 h3
  have e1 : pos + 1 - b.length = 0 := by omega
  have e2 : pos + 2 - b.length = 1 := by omega
  have e3 : pos + 3 - b.length = 2 := by omega
  rw [e1] at h1
  rw [e2] at h2
  rw [e3] at h3
  have hy : y = 'A' := Option.some_inj.mp h1
  have hz : z = 'S' := Option.some_inj.mp h2
  subst hy hz
  refine ⟨rfl, ?_, ?_, fun hinfix => ?_⟩
  · rw [List.getLast?_eq_getElem?, ← hpos]
    exact h0
  · rw [List.head?_eq_getElem?]
    exact h3
  · cases hearly : find " AS ".toList b with
    | none => exact not_infix_of_find_eq_none hearly hinfix
    | some e =>
      have hbound := find_bound hearly
      have he := (find_append ('A' :: 'S' :: a) hbound).mpr hearly
      have hlen : " AS ".toList.length = 4 := rfl
      rw [hfind, Option.some_inj] at he
      omega

/-- Between blanks the keyword is found, unless the pattern stands before it. -/
theorem find_keyword (hlast : b.getLast? = some ' ') (hhead : a.head? = some ' ')
    (hfirst : ¬" AS ".toList <:+: b) :
    find " AS ".toList (b ++ 'A' :: 'S' :: a) = some (b.length - 1) := by
  obtain ⟨b, rfl⟩ := List.getLast?_eq_some_iff.mp hlast
  obtain ⟨a, rfl⟩ := List.head?_eq_some_iff.mp hhead
  have hsplit : b ++ [' '] ++ 'A' :: 'S' :: ' ' :: a = b ++ " AS ".toList ++ a := by simp
  obtain ⟨e, he, hfind⟩ := find_middle_le " AS ".toList b a
  rw [hsplit, hfind, List.length_append, List.length_singleton, Nat.add_sub_cancel]
  rw [← hsplit] at hfind
  have hA : (b ++ [' '] ++ 'A' :: 'S' :: ' ' :: a)[b.length + 1]? = some 'A' := by simp
  have hlate : b.length + 1 < e + 4 := by
    by_contra hle
    refine hfirst ?_
    have hle' : e + " AS ".toList.length ≤ (b ++ [' ']).length := by simp; omega
    have hpre := find_prefix ((find_append _ hle').mp hfind)
    exact hpre.isInfix.trans (List.drop_suffix _ _).isInfix
  -- an earlier match would have its `S` or its last blank at the `A` of the keyword
  have h2 := find_getElem? hfind (i := 2) (by decide)
  have h3 := find_getElem? hfind (i := 3) (by decide)
  rcases (by omega : e = b.length ∨ e + 2 = b.length + 1 ∨ e + 3 = b.length + 1) with rfl | h | h
  · rfl
  · rw [h, hA] at h2
    exact absurd (Option.some_inj.mp h2) (by decide)
  · rw [h, hA] at h3
    exact absurd (Option.some_inj.mp h3) (by decide)

end Cut

section Views

namespace ViewStatement

theorem after_not_blank (v : ViewStatement) : v.after.dropWhile isspace ≠ [] := by
  obtain ⟨c, rest, hselect, hc⟩ := v.starts
  intro h
  have hmem : c ∈ v.after := by
    rw [after, hselect]
    exact List.mem_append_right _ List.mem_cons_self
  have hblank := List.dropWhile_eq_nil_iff.mp h c hmem
  rw [isspace_ne_of_isalpha hc] at hblank
  cases hblank

theorem keyword_chars (v : ViewStatement) : ∃ y z, v.as.1 = [y, z] ∧ isspace z = false := by
  have hlen : v.as.1.length = 2 := by
    rw [← List.length_map (f := Char.toLower)]
    exact congrArg List.length v.as.2
  obtain ⟨y, z, hkw⟩ := List.length_eq_two.mp hlen
  refine ⟨y, z, hkw, Bool.eq_false_iff.mpr fun hz => ?_⟩
  have hlower : [y.toLower, z.toLower] = "as".toList := by
    rw [← v.as.2, hkw]
    rfl
  have hs : z.toLower = 's' := (List.cons.inj (List.cons.inj hlower).2).1
  simp only [isspace, Bool.or_eq_true, decide_eq_true_eq] at hz
  rcases hz with ((((rfl | rfl) | rfl) | rfl) | rfl) | rfl <;> exact absurd hs (by decide)

/-- The definition is the body of the view exactly where the keyword is what `find` finds. -/
theorem hasBody_iff (v : ViewStatement) : v.HasBody (viewDefinition v.text) ↔ v.CutsAtKeyword := by
  obtain ⟨y, z, hkw, hz⟩ := v.keyword_chars
  have htext : v.text = v.before ++ y :: z :: v.after := by simp [text, hkw]
  rw [HasBody, viewDefinition, htext]
  constructor
  · intro h
    cases hfind : find " AS ".toList (v.before ++ y :: z :: v.after) with
    | none =>
      rw [hfind] at h
      exact absurd h.symm v.after_not_blank
    | some pos =>
      rw [hfind] at h
      obtain ⟨hupper, hlast, hhead, hfirst⟩ := chars_of_around hfind (cut_around hz hfind h)
      exact ⟨hkw.trans hupper, hlast, hhead, hfirst⟩
  · intro h
    obtain ⟨hy, hz⟩ : y = 'A' ∧ z = 'S' := by simpa using hkw.symm.trans h.upper
    rw [hy, hz, find_keyword h.blankBefore h.blankAfter h.first]
    obtain ⟨b, hb⟩ := List.getLast?_eq_some_iff.mp h.blankBefore
    obtain ⟨a, ha⟩ := List.head?_eq_some_iff.mp h.blankAfter
    have hdrop : (b ++ [' '] ++ 'A' :: 'S' :: ' ' :: a).drop ((b ++ [' ']).length - 1 + 4) = a := by
      simp [List.drop_append]
    have hblank : (' ' :: a).dropWhile isspace = a.dropWhile isspace := rfl
    rw [hb, ha, hblank]
    exact congrArg (List.dropWhile isspace) hdrop

end ViewStatement

section Each

variable {α β ε : Type} {f : α → Except ε β} {l : List α}

theorem mapM_eq_ok_iff {bs : List β} :
    l.mapM f = .ok bs ↔ List.Forall₂ (fun a b => f a = .ok b) l bs := by
  induction l generalizing bs with
  | nil =>
    rw [List.forall₂_nil_left_iff, List.mapM_nil]
    exact ⟨fun h => (Except.ok.inj h).symm, fun h => h ▸ rfl⟩
  | cons a l ih =>
    rw [List.mapM_cons, List.forall₂_cons_left_iff]
    cases ha : f a with
    | error e =>
      refine iff_of_false (fun h => ?_) ?_
      · cases h
      · rintro ⟨b, _, hb, -⟩
        cases hb
    | ok b =>
      constructor
      · intro h
        cases hl : l.mapM f with
        | error e =>
          rw [hl] at h
          cases h
        | ok bs' =>
          rw [hl] at h
          exact ⟨b, bs', rfl, ih.mp hl, (Except.ok.inj h).symm⟩
      · rintro ⟨b', bs', hb, hall, rfl⟩
        obtain rfl := Except.ok.inj hb
        rw [ih.mpr hall]
        rfl

theorem exists_mapM_eq_ok_iff : (∃ bs, l.mapM f = .ok bs) ↔ ∀ a ∈ l, ∃ b, f a = .ok b := by
  simp only [mapM_eq_ok_iff]
  induction l with
  | nil => simp
  | cons a l ih =>
    rw [List.forall_mem_cons, ← ih]
    constructor
    · rintro ⟨_, hall⟩
      obtain ⟨b, bs, hb, hbs, -⟩ := List.forall₂_cons_left_iff.mp hall
      exact ⟨⟨b, hb⟩, bs, hbs⟩
    · rintro ⟨⟨b, hb⟩, bs, hbs⟩
      exact ⟨b :: bs, .cons hb hbs⟩

end Each

variable {db : Queries} {connName : Text}

/-- The row of `sqlite_master` for a view. -/
def masterRow (v : Text × ViewStatement) : Row := [.text (some v.1), .text (some v.2.text)]

/-- What `views` makes of a stored view with its columns. -/
def loaded (connName : Text) (v : Text × ViewStatement) (rows : List Row) : Table :=
  { name := v.1, fullName := connName ++ ".".toList ++ v.1, columns := rows.map column
    definition := viewDefinition v.2.text }

theorem view_masterRow {v : Text × ViewStatement} {t : Table} :
    view db connName (masterRow v) = .ok t ↔
      ∃ rows, queryRows db (pragma "table_info".toList v.1) = .ok rows ∧
        t = loaded connName v rows := by
  have hname : textAt (masterRow v) 0 = v.1 := rfl
  have hsql : textAt (masterRow v) 1 = v.2.text := rfl
  rw [view, load, hname, hsql]
  cases queryRows db (pragma "table_info".toList v.1) with
  | error e =>
    refine iff_of_false (fun h => ?_) ?_
    · cases h
    · rintro ⟨_, h, -⟩
      cases h
  | ok rows =>
    constructor
    · intro h
      exact ⟨rows, rfl, (Except.ok.inj h).symm⟩
    · rintro ⟨rows', hrows, rfl⟩
      obtain rfl := Except.ok.inj hrows
      rfl

/-- `views` returns where each view's columns can be read, and then a view has its body as
definition exactly where the text cuts at the keyword. -/
theorem views_definition_iff {stored : List (Text × ViewStatement)}
    (hmaster : queryRows db viewsQuery = .ok (stored.map masterRow)) :
    ((∃ tables, views db connName = .ok tables) ↔
      ∀ v ∈ stored, ∃ rows, queryRows db (pragma "table_info".toList v.1) = .ok rows) ∧
    ∀ tables, views db connName = .ok tables →
      List.Forall₂ (fun v t => t.name = v.1 ∧ (v.2.HasBody t.definition ↔ v.2.CutsAtKeyword))
        stored tables := by
  have hviews : views db connName = (stored.map masterRow).mapM (view db connName) := by
    rw [views, hmaster]
    rfl
  rw [hviews]
  constructor
  · rw [exists_mapM_eq_ok_iff, List.forall_mem_map]
    simp only [view_masterRow]
    exact forall₂_congr fun v _ =>
      ⟨fun ⟨_, rows, hrows, _⟩ => ⟨rows, hrows⟩, fun ⟨rows, hrows⟩ => ⟨_, rows, hrows, rfl⟩⟩
  · intro tables htables
    rw [mapM_eq_ok_iff, List.forall₂_map_left_iff] at htables
    refine htables.imp fun v t ht => ?_
    obtain ⟨rows, -, rfl⟩ := view_masterRow.mp ht
    exact ⟨rfl, v.2.hasBody_iff⟩

section Stored

def oneBlank : Gap := [.blank ' ' rfl]

/-- `CREATE VIEW name AS SELECT 1`, the keyword as it is spelled. -/
def viewNamed (name : Name) (kw : Spelled "as".toList) : ViewStatement where
  create := ⟨"CREATE".toList, rfl⟩
  temp := none
  htemp := fun _ h => by cases h
  gapView := oneBlank
  hview := List.cons_ne_nil _ _
  view := ⟨"VIEW".toList, rfl⟩
  gapName := oneBlank
  name
  hname := fun _ => List.cons_ne_nil _ _
  columns := none
  gapAs := oneBlank
  hgapAs := fun _ _ => List.cons_ne_nil _ _
  as := kw
  gapSelect := oneBlank
  hselect := List.cons_ne_nil _ _
  select := "SELECT 1".toList
  starts := ⟨'S', "ELECT 1".toList, rfl, rfl⟩

def idColumn : Row := [.text (some ['0']), .text (some ['1']), .text (some []), .text (some ['0']),
  .null, .text (some ['0'])]

/-- A database with the views `stored`, each with one column. -/
def holding (stored : List (Text × ViewStatement)) : Queries := fun sql _ =>
  .ok ((if sql = viewsQuery then stored.map masterRow else [idColumn]).map .row)

theorem rowsOf_rows (rows : List Row) : rowsOf (rows.map .row) = .ok rows := by
  induction rows with
  | nil => rfl
  | cons row rows ih =>
    rw [List.map_cons, rowsOf, ih]
    rfl

theorem queryRows_holding (stored : List (Text × ViewStatement)) :
    queryRows (holding stored) viewsQuery = .ok (stored.map masterRow) := by
  have hanswer : holding stored viewsQuery none = .ok ((stored.map masterRow).map .row) := by
    rw [holding, if_pos rfl]
  rw [queryRows, hanswer]
  exact rowsOf_rows _

theorem columns_holding (stored : List (Text × ViewStatement)) (tn : Text) :
    queryRows (holding stored) (pragma "table_info".toList tn) = .ok [idColumn] := by
  have hne : pragma "table_info".toList tn ≠ viewsQuery := by
    intro h
    have hp : (pragma "table_info".toList tn).head? = some 'P' := rfl
    have hs : viewsQuery.head? = some 'S' := rfl
    rw [h, hs] at hp
    exact absurd hp (by decide)
  have hanswer : holding stored (pragma "table_info".toList tn) none = .ok ([idColumn].map .row) := by
    rw [holding, if_neg hne]
  rw [queryRows, hanswer]
  exact rowsOf_rows _

theorem v_is_word : ∀ c ∈ ['v'], isalnum c = true ∨ c = '_' ∨ c = '$' ∨ 128 ≤ c.toNat := by
  intro c hc
  obtain rfl := List.mem_singleton.mp hc
  exact .inl rfl

def plainView : Text × ViewStatement :=
  (['v'], viewNamed (.bare ['v'] (List.cons_ne_nil _ _) v_is_word) ⟨"AS".toList, rfl⟩)

theorem views_definition_plain : ∃ t, views (holding [plainView]) "c".toList = .ok [t] ∧
    plainView.2.HasBody t.definition := by
  obtain ⟨hreturns, hbodies⟩ := @views_definition_iff _ "c".toList _ (queryRows_holding [plainView])
  obtain ⟨tables, htables⟩ := hreturns.mpr fun v _ => ⟨_, columns_holding _ v.1⟩
  obtain ⟨t, _, ht, hnil, rfl⟩ := List.forall₂_cons_left_iff.mp (hbodies tables htables)
  obtain rfl := List.forall₂_nil_left_iff.mp hnil
  have hcuts : plainView.2.CutsAtKeyword := ⟨rfl, rfl, rfl, by decide⟩
  exact ⟨t, htables, ht.2.mpr hcuts⟩

/-- A name with the pattern in it. -/
def quotedView : Text × ViewStatement :=
  ("a AS b".toList, viewNamed (.quoted '"' (by decide) "a AS b".toList) ⟨"AS".toList, rfl⟩)

/-- The definition begins in the name. -/
theorem cut_in_name : ∃ t, views (holding [quotedView]) "c".toList = .ok [t] ∧
    t.definition = "b\" AS SELECT 1".toList ∧ ¬quotedView.2.HasBody t.definition := by
  refine ⟨loaded "c".toList quotedView [idColumn], ?_, rfl, by decide⟩
  have hview := (@view_masterRow _ "c".toList quotedView _).mpr
    ⟨_, columns_holding [quotedView] quotedView.1, rfl⟩
  rw [views, queryRows_holding]
  exact mapM_eq_ok_iff.mpr (.cons hview .nil)

end Stored

end Views
end DearSql.Sqlite
