import DearSql.SqlChains

/-! Names and the structure of generated SQL: two texts that differ in the names alone have the
same kinds of tokens and the same punctuation. -/
namespace DearSql
open Lexing

/-- Token kinds, and the texts of punctuation and operators. -/
def skeleton (ts : List TokInfo) : List (Tok × Text) :=
  ts.map fun t => (t.kind, if t.kind = .punct ∨ t.kind = .op then t.text else [])

/-- Two pieces that are the same but for the names in them. -/
inductive Piece.Alike : Piece → Piece → Prop
  | same (p : Piece) : Alike p p
  | path {ns ms : List Text} (h : ns.length = ms.length) : Alike (.path ns) (.path ms)

def Likes : List Piece → List Piece → Prop := List.Forall₂ Piece.Alike

/-- The piece reads as the same tokens whatever comes after it. -/
def Piece.Sealed (b : Builder) (p : Piece) : Prop :=
  Reads b.dialect (p.text b) (DearSql.infos b.dialect (p.text b))

theorem Piece.sealed {b : Builder} {p : Piece} (hk : p.known = true) (hw : p.Whole b.dialect) :
    p.Sealed b := by
  have hr := Piece.reads hk hw
  rwa [← hr.infos] at hr

/-- What comes before a name is sealed. -/
def Shielded (b : Builder) : List Piece → Prop
  | [] => True
  | p :: ps => ((∃ ns, Piece.path ns ∈ ps) → p.Sealed b) ∧ Shielded b ps

section TwoRuns

variable {d : Dialect} {ps qs : List Piece}

theorem skeleton_append (ts us : List TokInfo) : skeleton (ts ++ us) = skeleton ts ++ skeleton us :=
  List.map_append

theorem likes_refl (ps : List Piece) : Likes ps ps := List.forall₂_same.mpr fun p _ => .same p

theorem Likes.append {ps' qs' : List Piece} (h : Likes ps qs) (h' : Likes ps' qs') :
    Likes (ps ++ ps') (qs ++ qs') := List.rel_append h h'

/-- Without names there is nothing to differ in. -/
theorem Likes.eq_of_no_path (h : Likes ps qs) (hno : ¬∃ ns, Piece.path ns ∈ ps) : ps = qs := by
  induction h with
  | nil => rfl
  | cons hp hps ih =>
    have ih := ih fun ⟨ns, hns⟩ => hno ⟨ns, List.mem_cons_of_mem _ hns⟩
    cases hp with
    | same => rw [ih]
    | path => exact absurd ⟨_, List.mem_cons_self⟩ hno

theorem skeleton_path {ns ms : List Text} (h : ns.length = ms.length) :
    skeleton ((Piece.path ns).infos d) = skeleton ((Piece.path ms).infos d) := by
  have hsplit : ∀ k k' ks, (Piece.path (k :: k' :: ks)).infos d =
      [identInfo k] ++ [dotInfo] ++ (Piece.path (k' :: ks)).infos d := fun k k' ks => by
    simp [Piece.infos]
  have hident : ∀ n m, skeleton [identInfo n] = skeleton [identInfo m] := fun _ _ => rfl
  induction ns generalizing ms with
  | nil =>
    obtain rfl : ms = [] := List.length_eq_zero_iff.mp h.symm
    rfl
  | cons n ns ih =>
    cases ms with
    | nil => simp at h
    | cons m ms =>
      have hlen : ns.length = ms.length := Nat.succ.inj h
      have ih := ih hlen
      cases ns with
      | nil =>
        obtain rfl : ms = [] := List.length_eq_zero_iff.mp hlen.symm
        exact hident n m
      | cons n' ns =>
        cases ms with
        | nil => simp at hlen
        | cons m' ms =>
          rw [hsplit, hsplit, skeleton_append, skeleton_append, skeleton_append, skeleton_append,
            hident n m, ih]

/-- Texts of pieces that differ in the names alone are tokenized alike. -/
theorem skeleton_likes {b : Builder} (h : Likes ps qs) (hp : chained ps = true)
    (hq : chained qs = true) (hs : Shielded b ps) :
    skeleton (infos b.dialect (render b ps)) = skeleton (infos b.dialect (render b qs)) := by
  rw [infos_eq, infos_eq]
  induction h with
  | nil => rfl
  | @cons p q ps qs hpq hps ih =>
    have hps' := ih (chained_cons.mp hp).2.2 (chained_cons.mp hq).2.2 hs.2
    have hstep {ts us : List TokInfo} (ht : Reads b.dialect (p.text b) ts)
        (hu : Reads b.dialect (q.text b) us) (htu : skeleton ts = skeleton us) :
        skeleton (infosFrom b.dialect none (render b (p :: ps))) =
          skeleton (infosFrom b.dialect none (render b (q :: qs))) := by
      rw [infosFrom_render hp ht neutral_none, infosFrom_render hq hu neutral_none,
        skeleton_append, skeleton_append, htu, hps']
    cases hpq with
    | path hlen =>
      exact hstep (Piece.reads (chained_cons.mp hp).1 trivial)
        (Piece.reads (chained_cons.mp hq).1 trivial) (skeleton_path hlen)
    | same =>
      by_cases hno : ∃ ns, Piece.path ns ∈ ps
      · exact hstep (hs.1 hno) (hs.1 hno) rfl
      · rw [Likes.eq_of_no_path hps hno]

end TwoRuns

section Shapes

/-- A call of a builder. -/
inductive SqlCall
  | createTable (table : Table) (schemaPrefix : Text)
  | tableDdl (table : Table) (schemaPrefix : Text)
  | addColumn (schema tableName : Text) (column : Column)
  | dropColumn (schema tableName columnName : Text)
  | renameTable (schema oldName newName : Text)
  | renameColumn (schema tableName oldColumnName newColumnName : Text)
  | dropTable (schema tableName : Text)
  | truncateTable (schema tableName : Text)
  | insertRow (schema tableName : Text) (columnNames valueLiterals : List Text)
  | updateRow (schema tableName : Text) (assignments : List (Text × Text)) (whereExpr : Text)
  deriving DecidableEq, Repr

def SqlCall.sql (b : Builder) : SqlCall → Text
  | createTable table schemaPrefix => b.createTable table schemaPrefix
  | tableDdl table schemaPrefix => b.tableDdl table schemaPrefix
  | addColumn schema tableName column => b.addColumn (b.qualifiedRef schema tableName) column
  | dropColumn schema tableName columnName =>
    b.dropColumn (b.qualifiedRef schema tableName) columnName
  | renameTable schema oldName newName => b.renameTable schema oldName newName
  | renameColumn schema tableName oldColumnName newColumnName =>
    b.renameColumn (b.qualifiedRef schema tableName) oldColumnName newColumnName
  | dropTable schema tableName => b.dropTable schema tableName
  | truncateTable schema tableName => b.truncateTable schema tableName
  | insertRow schema tableName columnNames valueLiterals =>
    b.insertRow (b.qualifiedRef schema tableName) columnNames valueLiterals
  | updateRow schema tableName assignments whereExpr =>
    b.updateRow (b.qualifiedRef schema tableName) assignments whereExpr

def SqlCall.renames : SqlCall → Bool
  | renameTable .. | renameColumn .. => true
  | _ => false

/-- Two names. -/
def SameName (n m : Text) : Prop := n ≠ [] ∧ m ≠ []

/-- Two schemas, or none on either side. -/
def SameSchema (n m : Text) : Prop := n = [] ↔ m = []

def SameColumn (c c' : Column) : Prop := SameName c.name c'.name ∧ c' = { c with name := c'.name }

def SameIndex (i i' : Index) : Prop :=
  SameName i.name i'.name ∧ List.Forall₂ SameName i.columns i'.columns ∧
    i' = { i with name := i'.name, columns := i'.columns }

/-- Two foreign keys, named or unnamed. -/
def SameKey (k k' : ForeignKey) : Prop :=
  (k.name = [] ↔ k'.name = []) ∧ SameName k.sourceColumn k'.sourceColumn ∧
    SameName k.targetTable k'.targetTable ∧ SameName k.targetColumn k'.targetColumn ∧
    k' = { k with name := k'.name, sourceColumn := k'.sourceColumn, targetTable := k'.targetTable,
                  targetColumn := k'.targetColumn }

structure SameTable (t t' : Table) : Prop where
  name : SameName t.name t'.name
  comment : t.comment = t'.comment
  columns : List.Forall₂ SameColumn t.columns t'.columns
  indexes : List.Forall₂ SameIndex t.indexes t'.indexes
  foreignKeys : List.Forall₂ SameKey t.foreignKeys t'.foreignKeys

/-- Two calls that differ in the contents of names alone. -/
inductive SameShape : SqlCall → SqlCall → Prop
  | createTable {t t' p p'} (ht : SameTable t t') (hp : SameSchema p p') :
    SameShape (.createTable t p) (.createTable t' p')
  | tableDdl {t t' p p'} (ht : SameTable t t') (hp : SameSchema p p') :
    SameShape (.tableDdl t p) (.tableDdl t' p')
  | addColumn {s s' t t' c c'} (hs : SameSchema s s') (ht : SameName t t') (hc : SameColumn c c') :
    SameShape (.addColumn s t c) (.addColumn s' t' c')
  | dropColumn {s s' t t' c c'} (hs : SameSchema s s') (ht : SameName t t') (hc : SameName c c') :
    SameShape (.dropColumn s t c) (.dropColumn s' t' c')
  | renameTable {s s' t t' n n'} (hs : SameSchema s s') (ht : SameName t t') (hn : SameName n n') :
    SameShape (.renameTable s t n) (.renameTable s' t' n')
  | renameColumn {s s' t t' c c' n n'} (hs : SameSchema s s') (ht : SameName t t')
    (hc : SameName c c') (hn : SameName n n') :
    SameShape (.renameColumn s t c n) (.renameColumn s' t' c' n')
  | dropTable {s s' t t'} (hs : SameSchema s s') (ht : SameName t t') :
    SameShape (.dropTable s t) (.dropTable s' t')
  | truncateTable {s s' t t'} (hs : SameSchema s s') (ht : SameName t t') :
    SameShape (.truncateTable s t) (.truncateTable s' t')
  | insertRow {s s' t t' ns ns' vs} (hs : SameSchema s s') (ht : SameName t t')
    (hn : List.Forall₂ SameName ns ns') : SameShape (.insertRow s t ns vs) (.insertRow s' t' ns' vs)
  | updateRow {s s' t t' as as' w} (hs : SameSchema s s') (ht : SameName t t')
    (ha : List.Forall₂ (fun a a' => SameName a.1 a'.1 ∧ a.2 = a'.2) as as') :
    SameShape (.updateRow s t as w) (.updateRow s' t' as' w)

/-- Foreign keys of one constraint on one side are of one constraint on the other. -/
def SamePattern (ks ks' : List ForeignKey) : Prop :=
  ∀ p ∈ ks.zip ks', ∀ q ∈ ks.zip ks', p.1.name = q.1.name ↔ p.2.name = q.2.name

/-- The same for two calls: only `tableDdl` puts foreign keys of one name together. -/
def SqlCall.SamePattern : SqlCall → SqlCall → Prop
  | .tableDdl t _, .tableDdl t' _ => DearSql.SamePattern t.foreignKeys t'.foreignKeys
  | _, _ => True

end Shapes

section Likes

open Builder

variable {b : Builder}

theorem likes_path {ns ms : List Text} {ps qs : List Piece} (hn : ns.length = ms.length)
    (h : Likes ps qs) : Likes (.path ns :: ps) (.path ms :: qs) := .cons (.path hn) h

theorem likes_cons (p : Piece) {ps qs : List Piece} (h : Likes ps qs) : Likes (p :: ps) (p :: qs) :=
  .cons (.same p) h

theorem length_namesOf {s s' : Text} (hs : SameSchema s s') (n m : Text) :
    (namesOf s n).length = (namesOf s' m).length := by
  unfold namesOf
  by_cases h : s = []
  · rw [if_pos h, if_pos (hs.mp h)]
    rfl
  · rw [if_neg h, if_neg fun h' => h (hs.mpr h')]
    rfl

theorem likes_namePieces {ns ms : List Text} (h : ns.length = ms.length) :
    Likes (namePieces ns) (namePieces ms) := by
  induction ns generalizing ms with
  | nil =>
    obtain rfl : ms = [] := List.length_eq_zero_iff.mp h.symm
    exact likes_refl _
  | cons n ns ih =>
    cases ms with
    | nil => simp at h
    | cons m ms =>
      have hlen : ns.length = ms.length := Nat.succ.inj h
      have ih := ih hlen
      cases ns with
      | nil =>
        obtain rfl : ms = [] := List.length_eq_zero_iff.mp hlen.symm
        exact likes_path rfl (likes_refl _)
      | cons n' ns =>
        cases ms with
        | nil => simp at hlen
        | cons m' ms =>
          rw [namePieces_cons_cons, namePieces_cons_cons]
          exact likes_path rfl (likes_cons _ ih)

section CreateTable

theorem likes_createColumn {c c' : Column} (h : SameColumn c c') :
    Likes (b.createColumnPieces c) (b.createColumnPieces c') := by
  obtain ⟨n, rfl⟩ : ∃ n, c' = { c with name := n } := ⟨_, h.2⟩
  exact likes_path rfl (likes_refl _)

theorem likes_columns {cols cols' : List Column} (h : List.Forall₂ SameColumn cols cols') (i : ℕ) :
    Likes (b.columnsPieces i cols) (b.columnsPieces i cols') := by
  induction h generalizing i with
  | nil => exact likes_refl _
  | cons hc _ ih =>
    rw [columnsPieces, columnsPieces]
    exact ((likes_refl _).append (likes_createColumn hc)).append (ih (i + 1))

theorem createLoop_length {cols cols' : List Column} (h : List.Forall₂ SameColumn cols cols')
    {st st' : CreateLoop} (i : ℕ)
    (hpk : st.trailingPkColumns.length = st'.trailingPkColumns.length)
    (hin : st.hasInlineSQLitePrimaryKey = st'.hasInlineSQLitePrimaryKey) :
    (b.createLoop st i cols).trailingPkColumns.length =
      (b.createLoop st' i cols').trailingPkColumns.length := by
  induction h generalizing st st' i with
  | nil => exact hpk
  | @cons c c' _ _ hc _ ih =>
    obtain ⟨n, rfl⟩ : ∃ n, c' = { c with name := n } := ⟨_, hc.2⟩
    have hinline : b.inlinePk { c with name := n } = b.inlinePk c := rfl
    refine ih _ ?_ ?_ <;>
    · unfold createStep
      simp only [hin, hinline]
      split_ifs <;> simp [hpk]

theorem likes_pk {pk pk' : List Text} (h : pk.length = pk'.length) :
    Likes (pkPieces pk) (pkPieces pk') := by
  unfold pkPieces
  by_cases hpk : pk = []
  · subst hpk
    obtain rfl : pk' = [] := List.length_eq_zero_iff.mp h.symm
    exact likes_refl _
  · have hpk' : pk' ≠ [] := by
      rintro rfl
      exact hpk (List.length_eq_zero_iff.mp h)
    rw [if_pos hpk, if_pos hpk']
    exact likes_cons _ ((likes_namePieces h).append (likes_refl _))

theorem likes_commentOn {s s' : Text} (hs : SameSchema s s') (t t' n n' c : Text) :
    Likes (commentOnPieces s t n c) (commentOnPieces s' t' n' c) :=
  likes_cons _ (likes_path (by simp [length_namesOf hs t t']) (likes_refl _))

theorem likes_commentStatements {cols cols' : List Column}
    (h : List.Forall₂ SameColumn cols cols') {s s' : Text} (hs : SameSchema s s') (t t' : Text) :
    Likes (cols.flatMap (commentStatementPieces s t)) (cols'.flatMap (commentStatementPieces s' t')) := by
  refine List.rel_flatMap h fun c c' hc => ?_
  obtain ⟨n, rfl⟩ : ∃ n, c' = { c with name := n } := ⟨_, hc.2⟩
  unfold commentStatementPieces
  by_cases hcomment : c.comment ≠ []
  · rw [if_pos hcomment, if_pos hcomment]
    exact likes_cons _ (likes_commentOn hs _ _ _ _ _)
  · rw [if_neg hcomment, if_neg hcomment]
    exact likes_refl _

theorem Likes.opt {ps qs : List Piece} (h : Likes ps qs) (c : Prop) [Decidable c] :
    Likes (if c then ps else []) (if c then qs else []) := by
  split_ifs
  · exact h
  · exact likes_refl _

theorem likes_createTable {t t' : Table} (ht : SameTable t t') {p p' : Text} (hp : SameSchema p p') :
    Likes (b.createTablePieces t p) (b.createTablePieces t' p') := by
  have hpk : Likes (pkPieces (b.trailingPk t.columns)) (pkPieces (b.trailingPk t'.columns)) :=
    likes_pk (createLoop_length ht.columns 0 rfl rfl)
  have hcomments := likes_commentStatements ht.columns hp t.name t'.name
  unfold createTablePieces createTail
  rw [← ht.comment]
  exact likes_cons _ (likes_path (length_namesOf hp _ _) (likes_cons _
    ((likes_columns ht.columns 0).append
      (((hpk.append (likes_refl _)).append (likes_refl _)).append (hcomments.opt _)))))

end CreateTable

section TableDdl

theorem likes_ddlColumn {c c' : Column} (h : SameColumn c c') :
    Likes (b.ddlColumnPieces c) (b.ddlColumnPieces c') := by
  obtain ⟨n, rfl⟩ : ∃ n, c' = { c with name := n } := ⟨_, h.2⟩
  exact likes_path rfl (likes_refl _)

theorem likes_ddlIndex {i i' : Index} (h : SameIndex i i') :
    Likes (ddlIndexPieces i) (ddlIndexPieces i') :=
  likes_cons _ (likes_path rfl (likes_cons _
    ((likes_namePieces h.2.1.length_eq).append (likes_refl _))))

theorem likes_ddlIndexAfter {i i' : Index} (h : SameIndex i i') {s s' : Text} (hs : SameSchema s s')
    (t t' : Text) : Likes (ddlIndexAfterPieces s t i) (ddlIndexAfterPieces s' t' i') :=
  likes_cons _ (likes_path rfl (likes_cons _ (likes_path (length_namesOf hs t t') (likes_cons _
    ((likes_namePieces h.2.1.length_eq).append (likes_refl _))))))

/-- Keys of one group on either side. -/
def SameGroup (g g' : Text × List ForeignKey) : Prop :=
  (g.1 = [] ↔ g'.1 = []) ∧ List.Forall₂ SameKey g.2 g'.2

theorem likes_ddlForeignKey {g g' : Text × List ForeignKey} (h : SameGroup g g') :
    Likes (ddlForeignKeyPieces g) (ddlForeignKeyPieces g') := by
  obtain ⟨hname, hkeys⟩ := h
  obtain ⟨n, ks⟩ := g
  obtain ⟨n', ks'⟩ := g'
  have hhead : Likes (if n = [] then [] else [.fixed "CONSTRAINT ", .path [n], .fixed " "])
      (if n' = [] then [] else [.fixed "CONSTRAINT ", .path [n'], .fixed " "]) := by
    by_cases h : n = []
    · rw [if_pos h, if_pos (hname.mp h)]
      exact likes_refl _
    · rw [if_neg h, if_neg fun h' => h (hname.mpr h')]
      exact likes_cons _ (likes_path rfl (likes_refl _))
  have hactions : (ks.head?.map (·.onDelete)).getD [] = (ks'.head?.map (·.onDelete)).getD [] ∧
      (ks.head?.map (·.onUpdate)).getD [] = (ks'.head?.map (·.onUpdate)).getD [] := by
    cases hkeys with
    | nil => exact ⟨rfl, rfl⟩
    | cons hk _ =>
      obtain ⟨-, -, -, -, hk⟩ := hk
      rw [hk]
      exact ⟨rfl, rfl⟩
  have hlen (f : ForeignKey → Text) : (ks.map f).length = (ks'.map f).length := by
    rw [List.length_map, List.length_map, hkeys.length_eq]
  unfold ddlForeignKeyPieces
  simp only [hactions.1, hactions.2]
  exact hhead.append (likes_cons _ ((likes_namePieces (hlen _)).append (likes_cons _ (likes_path rfl
    (likes_cons _ ((likes_namePieces (hlen _)).append (likes_refl _)))))))

/-- The keys of a group come from one pair of keys, so that a new key joins both groups or none. -/
theorem sameGroup_add {Z : List (ForeignKey × ForeignKey)}
    (hZ : ∀ p ∈ Z, ∀ q ∈ Z, p.1.name = q.1.name ↔ p.2.name = q.2.name) {k k' : ForeignKey}
    (hk : SameKey k k') (hmem : (k, k') ∈ Z) {gs gs' : List (Text × List ForeignKey)}
    (h : List.Forall₂ (fun g g' => SameGroup g g' ∧
      ∃ p ∈ Z, g.1 = p.1.name ∧ g'.1 = p.2.name) gs gs') :
    List.Forall₂ (fun g g' => SameGroup g g' ∧ ∃ p ∈ Z, g.1 = p.1.name ∧ g'.1 = p.2.name)
      (addForeignKey k gs) (addForeignKey k' gs') := by
  induction h with
  | nil => exact .cons ⟨⟨hk.1, .cons hk .nil⟩, (k, k'), hmem, rfl, rfl⟩ .nil
  | @cons g g' gs gs' hg hgs ih =>
    obtain ⟨⟨hname, hkeys⟩, p, hp, h1, h2⟩ := hg
    have hsame : (k.name ≠ [] ∧ g.1 = k.name) ↔ (k'.name ≠ [] ∧ g'.1 = k'.name) := by
      rw [h1, h2, hZ p hp (k, k') hmem, Ne, Ne, hk.1]
    unfold addForeignKey
    by_cases hin : k.name ≠ [] ∧ g.1 = k.name
    · rw [if_pos hin, if_pos (hsame.mp hin)]
      exact .cons ⟨⟨hname, List.rel_append hkeys (.cons hk .nil)⟩, p, hp, h1, h2⟩ hgs
    · rw [if_neg hin, if_neg fun h => hin (hsame.mpr h)]
      exact .cons ⟨⟨hname, hkeys⟩, p, hp, h1, h2⟩ ih

theorem sameGroups {ks ks' : List ForeignKey} (h : List.Forall₂ SameKey ks ks')
    (hp : SamePattern ks ks') :
    List.Forall₂ SameGroup (groupForeignKeys ks) (groupForeignKeys ks') := by
  have hpairs : List.Forall₂ (fun k k' => SameKey k k' ∧ (k, k') ∈ ks.zip ks') ks ks' :=
    List.forall₂_iff_zip.mpr ⟨h.length_eq, fun hm => ⟨List.forall₂_zip h hm, hm⟩⟩
  have hgroups := List.rel_foldl (P := List.Forall₂ fun g g' => SameGroup g g' ∧
      ∃ p ∈ ks.zip ks', g.1 = p.1.name ∧ g'.1 = p.2.name)
    (fun _ _ hgs _ _ hk => sameGroup_add hp hk.1 hk.2 hgs) .nil hpairs
  exact hgroups.imp fun _ _ hg => hg.1

theorem likes_joinPieces {ls ls' : List (List Piece)} (h : List.Forall₂ Likes ls ls') :
    Likes (joinPieces ls) (joinPieces ls') := by
  induction h with
  | nil => exact likes_refl _
  | cons hl hls ih =>
    cases hls with
    | nil => exact likes_cons _ (hl.append (likes_refl _))
    | cons hm hms => exact likes_cons _ (hl.append (likes_cons _ ih))

theorem filter_same {α : Type*} {R : α → α → Prop} {p : α → Bool} (hp : ∀ a a', R a a' → p a = p a')
    {l l' : List α} (h : List.Forall₂ R l l') : List.Forall₂ R (l.filter p) (l'.filter p) :=
  List.rel_filter (fun a a' ha => by simp [hp a a' ha]) h

theorem isEmpty_same {α : Type*} {R : α → α → Prop} {l l' : List α} (h : List.Forall₂ R l l') :
    l.isEmpty = l'.isEmpty := by cases h <;> rfl

theorem likes_ddlLines {t t' : Table} (ht : SameTable t t')
    (hpat : SamePattern t.foreignKeys t'.foreignKeys) :
    List.Forall₂ Likes (b.ddlLinePieces t) (b.ddlLinePieces t') := by
  have hcols : List.Forall₂ Likes (t.columns.map b.ddlColumnPieces) (t'.columns.map b.ddlColumnPieces) :=
    List.rel_map (fun _ _ hc => likes_ddlColumn hc) ht.columns
  have hpk : ∀ pk pk' : List Text, pk.length = pk'.length → List.Forall₂ Likes
      (if pk ≠ [] then [ddlPkPieces pk] else []) (if pk' ≠ [] then [ddlPkPieces pk'] else []) := by
    intro pk pk' hlen
    by_cases h : pk = []
    · obtain rfl : pk' = [] := List.length_eq_zero_iff.mp (by rw [← hlen, h]; rfl)
      rw [h]
      exact .nil
    · rw [if_pos h, if_pos fun h' => h (List.length_eq_zero_iff.mp (by rw [hlen, h']; rfl))]
      exact .cons (likes_cons _ ((likes_namePieces hlen).append (likes_refl _))) .nil
  have hkey := filter_same (p := (·.isPrimaryKey)) (fun c c' hc => by rw [hc.2]) ht.columns
  have hidx := filter_same (p := b.ddlIndexInline) (fun i i' hi => by rw [hi.2.2]; rfl)
    (filter_same (p := ddlIndexKept) (fun i i' hi => by
      rw [ddlIndexKept, ddlIndexKept, isEmpty_same hi.2.1, hi.2.2]) ht.indexes)
  have hfks := sameGroups ht.foreignKeys hpat
  exact List.rel_append (List.rel_append (List.rel_append hcols
    (hpk _ _ (by rw [List.length_map, List.length_map, hkey.length_eq])))
    (List.rel_map (fun _ _ hi => likes_ddlIndex hi) hidx))
    (List.rel_map (fun _ _ hg => likes_ddlForeignKey hg) hfks)

theorem likes_tableDdl {t t' : Table} (ht : SameTable t t')
    (hpat : SamePattern t.foreignKeys t'.foreignKeys) {p p' : Text} (hp : SameSchema p p') :
    Likes (b.tableDdlPieces t p) (b.tableDdlPieces t' p') := by
  have hidx := filter_same (p := fun idx => !b.ddlIndexInline idx)
    (fun i i' hi => by simp only [ddlIndexInline]; rw [hi.2.2])
    (filter_same (p := ddlIndexKept) (fun i i' hi => by
      rw [ddlIndexKept, ddlIndexKept, isEmpty_same hi.2.1, hi.2.2]) ht.indexes)
  exact likes_cons _ (likes_path (length_namesOf hp _ _) (likes_cons _
    ((likes_joinPieces (likes_ddlLines ht hpat)).append (likes_cons _
      (List.rel_flatMap hidx fun i i' hi => likes_cons _ (likes_ddlIndexAfter hi hp _ _))))))

end TableDdl

section Calls

theorem likes_alterTable {s s' : Text} (hs : SameSchema s s') (t t' n n' : Text) (clause : String) :
    Likes (alterTablePieces s t clause n) (alterTablePieces s' t' clause n') :=
  likes_cons _ (likes_path (length_namesOf hs t t') (likes_cons _ (likes_path rfl (likes_refl _))))

theorem likes_addColumn {s s' : Text} (hs : SameSchema s s') (t t' : Text) {c c' : Column}
    (h : SameColumn c c') : Likes (b.addColumnPieces s t c) (b.addColumnPieces s' t' c') := by
  obtain ⟨n, rfl⟩ : ∃ n, c' = { c with name := n } := ⟨_, h.2⟩
  have hcomment : Likes (if c.comment ≠ [] then .fixed "; " :: commentOnPieces s t c.name c.comment
      else []) (if c.comment ≠ [] then .fixed "; " :: commentOnPieces s' t' n c.comment else []) :=
    Likes.opt (likes_cons _ (likes_commentOn hs _ _ _ _ _)) _
  have hclauses : Likes (b.addClauses s t c) (b.addClauses s' t' { c with name := n }) := by
    cases b with
    | PostgreSQL => exact (likes_refl _).append hcomment
    | _ => exact likes_refl _
  exact (likes_alterTable hs t t' c.name n _).append (likes_cons _ (likes_cons _ hclauses))

theorem likes_intercalate (p : Piece) {ls ls' : List (List Piece)} (h : List.Forall₂ Likes ls ls') :
    Likes ([p].intercalate ls) ([p].intercalate ls') := by
  induction h with
  | nil => exact likes_refl _
  | @cons l l' ls ls' hl hls ih =>
    have hsplit : ∀ (k m : List Piece) (ms : List (List Piece)),
        [p].intercalate (k :: m :: ms) = k ++ p :: [p].intercalate (m :: ms) := fun k m ms => by
      simp [List.intercalate]
    cases hls with
    | nil => simpa [List.intercalate] using hl
    | cons hm hms =>
      rw [hsplit, hsplit]
      exact hl.append (likes_cons p ih)

theorem likes_insertRow {s s' : Text} (hs : SameSchema s s') (t t' : Text) {ns ns' : List Text}
    (h : List.Forall₂ SameName ns ns') (vs : List Text) :
    Likes (insertRowPieces s t ns vs) (insertRowPieces s' t' ns' vs) := by
  have hvalues : (ns.zip vs).map (·.2) = (ns'.zip vs).map (·.2) := by
    induction h generalizing vs with
    | nil => rfl
    | cons _ _ ih =>
      cases vs with
      | nil => rfl
      | cons v vs => simpa using ih vs
  have hnames : ((ns.zip vs).map (·.1)).length = ((ns'.zip vs).map (·.1)).length := by
    simp [h.length_eq]
  unfold insertRowPieces
  simp only [hvalues]
  exact likes_cons _ (likes_path (length_namesOf hs t t') (likes_cons _
    ((likes_namePieces hnames).append (likes_refl _))))

theorem likes_updateRow {s s' : Text} (hs : SameSchema s s') (t t' : Text)
    {as as' : List (Text × Text)}
    (h : List.Forall₂ (fun a a' => SameName a.1 a'.1 ∧ a.2 = a'.2) as as') (w : Text) :
    Likes (updateRowPieces s t as w) (updateRowPieces s' t' as' w) := by
  have hset : List.Forall₂ Likes (as.map assignmentPieces) (as'.map assignmentPieces) := by
    refine List.rel_map (fun a a' ha => ?_) h
    unfold assignmentPieces
    rw [ha.2]
    exact likes_path rfl (likes_refl _)
  exact likes_cons _ (likes_path (length_namesOf hs t t') (likes_cons _
    ((likes_intercalate _ hset).append (likes_refl _))))

end Calls

end Likes

section NamesOnly

namespace SqlCall

/-- The pieces of the SQL of a call; MSSQL renames in a form of its own. -/
def pieces (b : Builder) : SqlCall → List Piece
  | createTable table schemaPrefix => b.createTablePieces table schemaPrefix
  | tableDdl table schemaPrefix => b.tableDdlPieces table schemaPrefix
  | addColumn schema tableName column => b.addColumnPieces schema tableName column
  | dropColumn schema tableName columnName => b.dropColumnPieces schema tableName columnName
  | renameTable schema oldName newName => b.renameTablePieces schema oldName newName
  | renameColumn schema tableName oldColumnName newColumnName =>
    Builder.renameColumnPieces schema tableName oldColumnName newColumnName
  | dropTable schema tableName => b.dropTablePieces schema tableName
  | truncateTable schema tableName => b.truncateTablePieces schema tableName
  | insertRow schema tableName columnNames valueLiterals =>
    Builder.insertRowPieces schema tableName columnNames valueLiterals
  | updateRow schema tableName assignments whereExpr =>
    Builder.updateRowPieces schema tableName assignments whereExpr

theorem render_pieces {b : Builder} {r : SqlCall} (h : ¬(b = .MSSQL ∧ r.renames = true)) :
    render b (r.pieces b) = r.sql b := by
  cases r with
  | createTable t p => exact b.render_createTable t p
  | tableDdl t p => exact b.render_tableDdl t p
  | addColumn s t c => exact b.render_addColumn s t c
  | dropColumn s t c => exact b.render_dropColumn s t c
  | renameTable s t n => exact b.render_renameTable (fun hb => h ⟨hb, rfl⟩) s t n
  | renameColumn s t c n => exact b.render_renameColumn (fun hb => h ⟨hb, rfl⟩) s t c n
  | dropTable s t => exact b.render_dropTable s t
  | truncateTable s t => exact b.render_truncateTable s t
  | insertRow s t ns vs => exact b.render_insertRow s t ns vs
  | updateRow s t as w => exact b.render_updateRow s t as w

theorem chained_pieces (b : Builder) (r : SqlCall) : chained (r.pieces b) = true := by
  cases r with
  | createTable t p => exact b.chained_createTable t p
  | tableDdl t p => exact b.chained_tableDdl t p
  | addColumn s t c => exact b.chained_addColumn s t c
  | dropColumn s t c => exact b.chained_dropColumn s t c
  | renameTable s t n => exact b.chained_renameTable s t n
  | renameColumn s t c n => exact Builder.chained_renameColumn s t c n
  | dropTable s t => exact b.chained_dropTable s t
  | truncateTable s t => exact b.chained_truncateTable s t
  | insertRow s t ns vs => exact Builder.chained_insertRow s t ns vs
  | updateRow s t as w => exact Builder.chained_updateRow s t as w

theorem likes_pieces (b : Builder) {r r' : SqlCall} (h : SameShape r r')
    (hpat : r.SamePattern r') : Likes (r.pieces b) (r'.pieces b) := by
  cases h with
  | createTable ht hp => exact likes_createTable ht hp
  | tableDdl ht hp => exact likes_tableDdl ht hpat hp
  | addColumn hs _ hc => exact likes_addColumn hs _ _ hc
  | dropColumn hs => exact likes_alterTable hs _ _ _ _ _
  | renameTable hs =>
    unfold pieces Builder.renameTablePieces
    dsimp only
    split_ifs <;> exact likes_cons _ (likes_path (length_namesOf hs _ _)
      (likes_cons _ (likes_path rfl (likes_refl _))))
  | renameColumn hs =>
    exact (likes_alterTable hs _ _ _ _ _).append (likes_cons _ (likes_path rfl (likes_refl _)))
  | dropTable hs =>
    cases b <;> exact likes_cons _ (likes_path (length_namesOf hs _ _) (likes_refl _))
  | truncateTable hs => exact likes_cons _ (likes_path (length_namesOf hs _ _) (likes_refl _))
  | insertRow hs _ hn => exact likes_insertRow hs _ _ hn _
  | updateRow hs _ ha => exact likes_updateRow hs _ _ ha _

/-- The SQL of the two calls has the same structure. -/
def SameStructure (b : Builder) (r r' : SqlCall) : Prop :=
  skeleton (infos b.dialect (r.sql b)) = skeleton (infos b.dialect (r'.sql b))

end SqlCall

theorem renames_shape {r r' : SqlCall} (h : SameShape r r') : r.renames = r'.renames := by
  cases h <;> rfl

theorem names_keep_structure {b : Builder} {r r' : SqlCall} (hr : SameShape r r')
    (h : ¬(b = .MSSQL ∧ r.renames = true)) (hpat : r.SamePattern r')
    (hs : Shielded b (r.pieces b)) : r.SameStructure b r' := by
  rw [SqlCall.SameStructure, ← SqlCall.render_pieces h,
    ← SqlCall.render_pieces (r := r') (by rwa [← renames_shape hr])]
  exact skeleton_likes (SqlCall.likes_pieces b hr hpat) (r.chained_pieces b) (r'.chained_pieces b) hs

/-- A schema in the place of `s`, where there is one. -/
def schemaLike (s : Text) : Text := if s = [] then [] else ['s']

theorem sameSchema_like (s : Text) : SameSchema s (schemaLike s) := by
  unfold SameSchema schemaLike
  split_ifs with h <;> simp [h]

/-- The names of a rename by MSSQL stand in string literals that do not escape them. -/
theorem mssql_rename_apart (s : Text) (hs : s = [] ∨ s = ['s']) :
    skeleton (infos Builder.MSSQL.dialect (Builder.MSSQL.renameTable s ['t'] ['n'])) ≠
        skeleton (infos Builder.MSSQL.dialect (Builder.MSSQL.renameTable s ['t'] "n' n".toList)) ∧
      skeleton (infos Builder.MSSQL.dialect
          (Builder.MSSQL.renameColumn (Builder.MSSQL.qualifiedRef s ['t']) ['c'] ['n'])) ≠
        skeleton (infos Builder.MSSQL.dialect
          (Builder.MSSQL.renameColumn (Builder.MSSQL.qualifiedRef s ['t']) ['c'] "n' n".toList)) := by
  rcases hs with rfl | rfl <;> decide

theorem mssql_rename_not {r r' : SqlCall} (h : r.renames = true) (hn : SameShape r r') :
    ¬∀ r'', SameShape r r'' → r.SameStructure .MSSQL r'' := fun hr => by
  have hlike : ∀ s, schemaLike s = [] ∨ schemaLike s = ['s'] := fun s => by
    unfold schemaLike
    split_ifs <;> simp
  have hname : ∀ {m}, m ≠ [] → SameName m "n' n".toList := fun hm => ⟨hm, by simp⟩
  cases hn with
  | @renameTable s _ t _ n _ _ ht hn =>
    have h1 := hr (.renameTable (schemaLike s) ['t'] ['n'])
      (.renameTable (sameSchema_like s) ⟨ht.1, by simp⟩ ⟨hn.1, by simp⟩)
    have h2 := hr (.renameTable (schemaLike s) ['t'] "n' n".toList)
      (.renameTable (sameSchema_like s) ⟨ht.1, by simp⟩ (hname hn.1))
    exact (mssql_rename_apart _ (hlike s)).1 (h1.symm.trans h2)
  | @renameColumn s _ t _ c _ n _ _ ht hc hn =>
    have h1 := hr (.renameColumn (schemaLike s) ['t'] ['c'] ['n'])
      (.renameColumn (sameSchema_like s) ⟨ht.1, by simp⟩ ⟨hc.1, by simp⟩ ⟨hn.1, by simp⟩)
    have h2 := hr (.renameColumn (schemaLike s) ['t'] ['c'] "n' n".toList)
      (.renameColumn (sameSchema_like s) ⟨ht.1, by simp⟩ ⟨hc.1, by simp⟩ (hname hn.1))
    exact (mssql_rename_apart _ (hlike s)).2 (h1.symm.trans h2)
  | _ => simp [SqlCall.renames] at h

/-- The structure of generated SQL does not depend on names, where their pattern and the texts
taken over allow it; but that of a rename of MSSQL always does. -/
theorem names_only {b : Builder} {r r' : SqlCall} (hr : SameShape r r') :
    (¬(b = .MSSQL ∧ r.renames = true) ∧ r.SamePattern r' ∧ Shielded b (r.pieces b) →
        r.SameStructure b r') ∧
      (b = .MSSQL ∧ r.renames = true → ¬∀ r'', SameShape r r'' → r.SameStructure b r'') := by
  refine ⟨fun h => names_keep_structure hr h.1 h.2.1 h.2.2, ?_⟩
  rintro ⟨rfl, h⟩
  exact mssql_rename_not h hr

theorem names_only_drop :
    SqlCall.SameStructure .SQLite (.dropColumn ['s'] ['t'] ['c'])
      (.dropColumn ['r'] ['u'] ['d']) := by
  refine (names_only (.dropColumn (by simp [SameSchema]) ⟨by simp, by simp⟩ ⟨by simp, by simp⟩)).1
    ⟨by simp, trivial, ?_⟩
  exact ⟨fun _ => Piece.sealed (by decide) trivial, fun _ => Piece.sealed (by decide) trivial,
    fun _ => Piece.sealed (by decide) trivial, fun _ => Piece.sealed (by decide) trivial, trivial⟩

def twoKeys (n m : Text) : SqlCall :=
  .tableDdl
    { name := ['t']
      foreignKeys := [
        { name := n, sourceColumn := ['a'], targetTable := ['u'], targetColumn := ['x'] },
        { name := m, sourceColumn := ['b'], targetTable := ['u'], targetColumn := ['y'] }] } []

/-- Rows of one name are one constraint, so the pattern of names does change the structure. -/
example : ¬(twoKeys ['k'] ['l']).SameStructure .PostgreSQL (twoKeys ['k'] ['k']) := by
  unfold SqlCall.SameStructure
  decide

/-- A quote in a new name ends the literal that MSSQL puts it in. -/
theorem rename_breaks_out :
    SameShape (.renameTable [] ['t'] ['n']) (.renameTable [] ['t'] "n' n".toList) ∧
      skeleton (infos Builder.MSSQL.dialect ((SqlCall.renameTable [] ['t'] ['n']).sql .MSSQL)) ≠
        skeleton (infos Builder.MSSQL.dialect
          ((SqlCall.renameTable [] ['t'] "n' n".toList).sql .MSSQL)) :=
  ⟨.renameTable Iff.rfl ⟨by simp, by simp⟩ ⟨by simp, by simp⟩,
    (mssql_rename_apart [] (.inl rfl)).1⟩

end NamesOnly
end DearSql
