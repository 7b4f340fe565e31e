import DearSql.Best
import DearSql.CompleteBounds
import DearSql.Separated

/-! The path inserted for a catalog entry, and the entry that the path leads back to. -/
namespace DearSql
open Lexing Loops Best

section Segments

theorem dropShared_suffix (segs ds : List Text) : dropShared segs ds <:+ segs := by
  induction segs generalizing ds with
  | nil => simp [dropShared]
  | cons seg segs ih =>
    cases segs with
    | nil => simp [dropShared]
    | cons seg' segs =>
      cases ds with
      | nil => simp [dropShared]
      | cons d ds =>
        rw [dropShared]
        split_ifs
        · exact (ih ds).trans (List.suffix_cons _ _)
        · exact List.suffix_rfl

theorem joinPath_foldl {out : Text} (hout : out ≠ []) (segs : List Text) :
    segs.foldl (fun out seg => if out ≠ [] then out ++ '.' :: seg else seg) out =
      ['.'].intercalate (out :: segs) := by
  induction segs generalizing out with
  | nil => simp
  | cons seg segs ih =>
    rw [List.foldl_cons, if_pos hout, ih (by simp)]
    cases segs <;> simp [List.intercalate]

/-- Joined segments split again, but for empty ones in front. -/
theorem splitPath_joinPath {segs : List Text} (h : ∀ seg ∈ segs, '.' ∉ seg) :
    splitPath (joinPath segs) = segs.dropWhile (· = []) := by
  unfold joinPath
  induction segs with
  | nil => simp [splitPath]
  | cons seg segs ih =>
    obtain ⟨hseg, hsegs⟩ := List.forall_mem_cons.mp h
    rw [List.foldl_cons, if_neg (by simp)]
    by_cases hnil : seg = []
    · subst hnil
      rw [ih hsegs]
      simp
    · have hne : ['.'].intercalate (seg :: segs) ≠ [] := by
        cases segs <;> simp [List.intercalate, hnil]
      rw [joinPath_foldl hnil, splitPath, if_neg hne, List.splitOn_intercalate '.' h (by simp)]
      simp [hnil]

theorem dot_not_mem {path seg : Text} (h : seg ∈ splitPath path) : '.' ∉ seg := by
  unfold splitPath at h
  split_ifs at h
  · simp at h
  · exact not_mem_of_splitOn h

/-- What goes before the name of an entry is the end of its schema path. -/
theorem insertedSchema_suffix (catalog : CompletionCatalog) (t : Table) :
    splitPath (insertedSchema catalog t) <:+ splitPath t.schema := by
  unfold insertedSchema
  split_ifs
  · simp [splitPath]
  · have hsuffix := dropShared_suffix (splitPath t.schema) (splitPath catalog.defaultSchema)
    rw [relativeSchema, splitPath_joinPath fun seg hseg => dot_not_mem (hsuffix.subset hseg)]
    exact (List.dropWhile_suffix _).trans hsuffix

theorem ieq_refl (a : Text) : ieq a a = true := by simp [ieq]

theorem ieq_zip (l : List Text) : (l.zip l).all (fun p => ieq p.1 p.2) = true := by
  induction l with
  | nil => rfl
  | cons a l ih => rw [List.zip_cons_cons, List.all_cons, ih, ieq_refl, Bool.and_self]

theorem qualifierMatches_suffix {schemaPath : Text} {qualifier : List Text}
    (h : qualifier <:+ splitPath schemaPath) : qualifierMatches schemaPath qualifier = true := by
  simp only [qualifierMatches]
  split_ifs with hnil hlen
  · rfl
  · exact absurd h.length_le (by omega)
  · rw [← List.suffix_iff_eq_drop.mp h]
    exact ieq_zip qualifier

end Segments

section Search

/-- The path leads to this entry, if to no better one. -/
def Answers (name : Text) (qualifier : List Text) (r : Relation) : Bool :=
  ieq r.table.name name && qualifierMatches r.table.schema qualifier

/-- How near a schema is: the default one, none, another one. -/
def place (catalog : CompletionCatalog) (r : Relation) : ℤ :=
  if ieq r.table.schema catalog.defaultSchema then 2 else if r.table.schema = [] then 1 else 0

theorem relationRank_eq (catalog : CompletionCatalog) (name : Text) (r : Relation) :
    relationRank catalog name r.table =
      (if r.table.name = name then 1 else 0) + 2 * place catalog r := by
  unfold relationRank place
  split_ifs <;> rfl

theorem relationRank_nonneg (catalog : CompletionCatalog) (name : Text) (t : Table) :
    0 ≤ relationRank catalog name t := by
  unfold relationRank
  split_ifs <;> omega

theorem consider_eq (catalog : CompletionCatalog) (name : Text) (qualifier : List Text) :
    consider catalog name qualifier =
      keepBest (Answers name qualifier) fun r => relationRank catalog name r.table := by
  funext best r
  unfold consider keepBest Answers
  rw [Bool.not_and]

/-- Entries that differ, ignoring case, in schema or name. -/
def DistinctEntries (catalog : CompletionCatalog) : Prop :=
  catalog.relations.Pairwise fun r r' =>
    ¬(ieq r.table.schema r'.table.schema ∧ ieq r.table.name r'.table.name)

/-- No other entry that the path inserted for `rel` also names lies nearer, or comes before it at
the same distance with its exact name. -/
def Unshadowed (catalog : CompletionCatalog) (front back : List Relation) (rel : Relation) : Prop :=
  ∀ r, Answers rel.table.name (splitPath (insertedSchema catalog rel.table)) r = true →
    (r ∈ front ∨ r ∈ back → place catalog r ≤ place catalog rel) ∧
      ¬(r ∈ front ∧ r.table.name = rel.table.name ∧ place catalog r = place catalog rel)

theorem findRelation_inserted {catalog : CompletionCatalog} (hd : DistinctEntries catalog)
    {front back : List Relation} {rel : Relation} (hrel : catalog.relations = front ++ rel :: back) :
    findRelation catalog (splitPath (insertedSchema catalog rel.table) ++ [rel.table.name]) =
      some rel ↔ Unshadowed catalog front back rel := by
  have hself : Answers rel.table.name (splitPath (insertedSchema catalog rel.table)) rel = true := by
    rw [Answers, ieq_refl, qualifierMatches_suffix (insertedSchema_suffix catalog rel.table)]
    rfl
  rw [DistinctEntries, hrel, List.pairwise_append, List.pairwise_cons] at hd
  obtain ⟨-, ⟨hafter, -⟩, hbefore⟩ := hd
  have hfront : rel ∉ front := fun h =>
    hbefore rel h rel List.mem_cons_self ⟨ieq_refl _, ieq_refl _⟩
  have hback : rel ∉ back := fun h => hafter rel h ⟨ieq_refl _, ieq_refl _⟩
  rw [findRelation, List.getLast?_append, List.getLast?_singleton]
  simp only [Option.some_or, List.dropLast_concat, consider_eq]
  rw [foldl_keepBest_eq (fun r => relationRank_nonneg catalog _ r.table) hrel hself hfront hback]
  simp only [relationRank_eq, if_true]
  constructor
  · rintro ⟨h1, h2⟩ r hr
    constructor
    · rintro (hmem | hmem)
      · have := h1 r hmem hr
        split_ifs at this <;> omega
      · have := h2 r hmem hr
        split_ifs at this <;> omega
    · rintro ⟨hmem, hname, hplace⟩
      have := h1 r hmem hr
      rw [if_pos hname] at this
      omega
  · intro h
    constructor
    · intro r hmem hr
      obtain ⟨hle, hnot⟩ := h r hr
      have hle := hle (.inl hmem)
      split_ifs with hname
      · have hne : place catalog r ≠ place catalog rel := fun he => hnot ⟨hmem, hname, he⟩
        omega
      · omega
    · intro r hmem hr
      have hle := (h r hr).1 (.inr hmem)
      split_ifs <;> omega

/-- The text inserted for an entry reads as a path, and the path leads back to the entry unless
another entry shadows it. -/
theorem inserted_path_leads_back {catalog : CompletionCatalog} (hd : DistinctEntries catalog)
    {front back : List Relation} {rel : Relation} (hrel : catalog.relations = front ++ rel :: back)
    (e : Emitter) :
    ∃ ids path, infos (dialectFor e.type) (e.path (insertedSchema catalog rel.table) rel.table.name) =
        ids.intersperse dotInfo ∧
      List.Forall₂ IsName ids path ∧
      (findRelation catalog path = some rel ↔ Unshadowed catalog front back rel) := by
  generalize hS : insertedSchema catalog rel.table = schema
  refine ⟨(splitPath schema ++ [rel.table.name]).map (nameInfo e.quoted e.type),
    splitPath schema ++ [rel.table.name], ?_, ?_, hS ▸ findRelation_inserted hd hrel⟩
  · unfold Emitter.path
    split_ifs with h
    · rw [show splitPath schema = [] by simp [splitPath, h]]
      exact infosFrom_path e [] rel.table.name
    · exact infosFrom_path e _ _
  · rw [List.forall₂_map_left_iff]
    exact List.forall₂_same.mpr fun n _ => isName_nameInfo _ _ n

/-- Two databases with a schema of the same name. -/
def twoDatabases : CompletionCatalog where
  tables := [{ name := "log".toList, schema := "other.audit".toList },
    { name := "log".toList, schema := "sales.audit".toList }]
  defaultSchema := "sales.dbo".toList

theorem inserted_path_leads_back_first :
    DistinctEntries twoDatabases ∧
      ∃ ids path, infos (dialectFor .MSSQL) (Emitter.path ⟨[], false, .MSSQL⟩
          (insertedSchema twoDatabases { name := "log".toList, schema := "other.audit".toList })
          "log".toList) = ids.intersperse dotInfo ∧
        List.Forall₂ IsName ids path ∧
        (findRelation twoDatabases path =
            some ⟨{ name := "log".toList, schema := "other.audit".toList }, false⟩ ↔
          Unshadowed twoDatabases []
            [⟨{ name := "log".toList, schema := "sales.audit".toList }, false⟩]
            ⟨{ name := "log".toList, schema := "other.audit".toList }, false⟩) := by
  have hd : DistinctEntries twoDatabases := by
    unfold DistinctEntries
    decide
  have hrel : twoDatabases.relations =
      [] ++ ⟨{ name := "log".toList, schema := "other.audit".toList }, false⟩ ::
        [⟨{ name := "log".toList, schema := "sales.audit".toList }, false⟩] := rfl
  exact ⟨hd, inserted_path_leads_back hd hrel ⟨[], false, .MSSQL⟩⟩

/-- The path inserted for the log of the default database leads to that of the other one. -/
theorem twoDatabases_leads_astray :
    DistinctEntries twoDatabases ∧
      ∃ rel ∈ twoDatabases.relations, ∃ ids path,
        infos (dialectFor .MSSQL) (Emitter.path ⟨[], false, .MSSQL⟩
          (insertedSchema twoDatabases rel.table) rel.table.name) = ids.intersperse dotInfo ∧
        List.Forall₂ IsName ids path ∧ findRelation twoDatabases path ≠ some rel := by
  have hd : DistinctEntries twoDatabases := by
    unfold DistinctEntries
    decide
  refine ⟨hd, ⟨{ name := "log".toList, schema := "sales.audit".toList }, false⟩, by decide,
    [{ kind := .word, text := "audit".toList }, { kind := .word, text := "log".toList }],
    ["audit".toList, "log".toList], by decide, ?_, by decide⟩
  exact .cons ⟨.inl rfl, rfl, rfl⟩ (.cons ⟨.inl rfl, rfl, rfl⟩ .nil)

end Search
end DearSql
