import DearSql.Types

/-! The columns of a collection, which has no schema: they are read off a sample of its
documents. -/
namespace DearSql.Mongo

/-- `bsoncxx::type`. -/
inductive BsonType
  | double | string | document | array | binary | undefined | oid | bool | date | null | regex
  | dbpointer | code | symbol | codewscope | int32 | timestamp | int64 | decimal128 | maxkey
  | minkey
  deriving DecidableEq, Repr

/-- A document by the keys and the types of its elements, in order. -/
abbrev Document := List (Text × BsonType)

/-- What `find` gives of a collection: the documents until the last one, or until it throws. -/
structure Cursor where
  documents : List Document
  throws : Bool := false

def columnType : BsonType → Text
  | .double => "double".toList
  | .string => "string".toList
  | .document => "object".toList
  | .array => "array".toList
  | .binary => "binary".toList
  | .oid => "objectId".toList
  | .bool => "bool".toList
  | .date => "date".toList
  | .null => "null".toList
  | .int32 => "int32".toList
  | .int64 => "int64".toList
  | .decimal128 => "decimal128".toList
  | _ => "unknown".toList

def idField : Text := ['_', 'i', 'd']

def columnOf (elem : Text × BsonType) : Column :=
  { name := elem.1, type := columnType elem.2, isPrimaryKey := elem.1 = idField
    isNotNull := elem.1 = idField }

/-- One element, with the columns so far and the fields they are of. -/
def seeElement (st : List Column × Finset Text) (elem : Text × BsonType) :
    List Column × Finset Text :=
  if elem.1 ∈ st.2 then st else (st.1 ++ [columnOf elem], insert elem.1 st.2)

/-- The comparison of the sort; no two of the columns have one name. -/
def before (a b : Column) : Bool :=
  a.name = idField || (b.name ≠ idField && a.name ≤ b.name)

def inferSchemaFromSample (c : Cursor) : List Column :=
  let columns := (c.documents.flatten.foldl seeElement ([], ∅)).1
  if c.throws then columns else columns.mergeSort before

section Schema

variable {elems more : List (Text × BsonType)} {a b c : Column} {n : Text} {docs : List Document}

def unsorted (elems : List (Text × BsonType)) : List Column := (elems.foldl seeElement ([], ∅)).1

/-- One column for each field of the sample, as its first value has it. -/
structure Covers (elems : List (Text × BsonType)) (columns : List Column) : Prop where
  names : ∀ n, n ∈ columns.map Column.name ↔ n ∈ elems.map Prod.fst
  distinct : (columns.map Column.name).Nodup
  first : ∀ c ∈ columns, ∃ e, elems.find? (fun e => e.1 = c.name) = some e ∧ c = columnOf e

theorem seen_fields (elems : List (Text × BsonType)) (n : Text) :
    n ∈ (elems.foldl seeElement ([], ∅)).2 ↔ n ∈ elems.map Prod.fst := by
  induction elems using List.reverseRecOn with
  | nil => simp
  | append_singleton elems e ih =>
    rw [List.foldl_append, List.foldl_cons, List.foldl_nil, seeElement, List.map_append,
      List.mem_append, ← ih]
    split_ifs with hseen
    · simp only [List.map_cons, List.map_nil, List.mem_singleton]
      exact ⟨.inl, fun h => h.elim id fun hn => hn ▸ hseen⟩
    · simp [or_comm]

theorem unsorted_append_singleton (e : Text × BsonType) : unsorted (elems ++ [e]) =
    unsorted elems ++ if e.1 ∈ elems.map Prod.fst then [] else [columnOf e] := by
  rw [unsorted, List.foldl_append, List.foldl_cons, List.foldl_nil, seeElement]
  simp only [seen_fields]
  split_ifs <;> simp [unsorted]

theorem unsorted_covers (elems : List (Text × BsonType)) : Covers elems (unsorted elems) := by
  induction elems using List.reverseRecOn with
  | nil => exact ⟨fun n => Iff.rfl, List.nodup_nil, by simp [unsorted]⟩
  | append_singleton elems e ih =>
    have hfirst : ∀ c ∈ unsorted elems, ∃ x,
        (elems ++ [e]).find? (fun x => x.1 = c.name) = some x ∧ c = columnOf x := by
      intro c hc
      obtain ⟨x, hx, rfl⟩ := ih.first c hc
      exact ⟨x, by rw [List.find?_append, hx, Option.some_or], rfl⟩
    rw [unsorted_append_singleton]
    split_ifs with hseen
    · rw [List.append_nil]
      refine ⟨fun n => ?_, ih.distinct, hfirst⟩
      rw [ih.names, List.map_append, List.mem_append, List.map_singleton, List.mem_singleton]
      exact ⟨.inl, fun h => h.elim id fun hn => hn ▸ hseen⟩
    · refine ⟨fun n => ?_, ?_, ?_⟩
      · simp only [List.map_append, List.mem_append, ih.names n, List.map_singleton,
          List.mem_singleton]
        rfl
      · rw [List.map_append, List.map_singleton, ← List.concat_eq_append]
        exact ih.distinct.concat (fun h => hseen ((ih.names _).mp h))
      · intro c hc
        obtain hc | hc := List.mem_append.mp hc
        · exact hfirst c hc
        · obtain rfl := List.mem_singleton.mp hc
          have hnone : elems.find? (fun x => x.1 = e.1) = none := by
            rw [List.find?_eq_none]
            intro x hx hxe
            exact hseen (List.mem_map.mpr ⟨x, hx, by simpa using hxe⟩)
          refine ⟨e, ?_, rfl⟩
          change (elems ++ [e]).find? (fun x => x.1 = e.1) = some e
          rw [List.find?_append, hnone, Option.none_or]
          simp

theorem unsorted_begins (elems more : List (Text × BsonType)) :
    unsorted elems <+: unsorted (elems ++ more) := by
  induction more using List.reverseRecOn with
  | nil => rw [List.append_nil]
  | append_singleton more e ih =>
    rw [← List.append_assoc, unsorted_append_singleton]
    exact ih.trans (List.prefix_append _ _)

theorem before_trans (hab : before a b = true) (hbc : before b c = true) :
    before a c = true := by
  simp only [before, Bool.or_eq_true, decide_eq_true_eq, Bool.and_eq_true] at hab hbc ⊢
  obtain ha | ⟨hb, hab⟩ := hab
  · exact .inl ha
  · obtain ⟨hc, hbc⟩ := hbc.resolve_left hb
    exact .inr ⟨hc, hab.trans hbc⟩

theorem before_total (a b : Column) : (before a b || before b a) = true := by
  simp only [before, Bool.or_eq_true, decide_eq_true_eq, Bool.and_eq_true]
  obtain ha | ha := eq_or_ne a.name idField
  · exact .inl (.inl ha)
  · obtain hb | hb := eq_or_ne b.name idField
    · exact .inr (.inl hb)
    · exact (le_total a.name b.name).imp (fun h => .inr ⟨hb, h⟩) fun h => .inr ⟨ha, h⟩

/-- The column of the key first, and the others by their names. -/
def Precedes (a b : Column) : Prop :=
  b.name ≠ idField ∧ (a.name = idField ∨ a.name < b.name)

theorem Precedes.asymm (hab : Precedes a b) (hba : Precedes b a) : False :=
  lt_asymm (hab.2.resolve_left hba.1) (hba.2.resolve_left hab.1)

theorem precedes_of_before (h : before a b = true) (hne : a.name ≠ b.name) : Precedes a b := by
  simp only [before, Bool.or_eq_true, decide_eq_true_eq, Bool.and_eq_true] at h
  obtain ha | ⟨hb, hab⟩ := h
  · exact ⟨fun hb => hne (ha.trans hb.symm), .inl ha⟩
  · exact ⟨hb, .inr (lt_of_le_of_ne hab hne)⟩

instance : Std.Antisymm Precedes := ⟨fun _ _ hab hba => (hab.asymm hba).elim⟩

instance : Std.Irrefl Precedes := ⟨fun _ h => h.asymm h⟩

/-- The columns of a sample, in order. -/
structure Schema (elems : List (Text × BsonType)) (columns : List Column) : Prop
    extends Covers elems columns where
  ordered : columns.Pairwise Precedes

variable {columns columns' : List Column}

theorem Covers.perm (h : Covers elems columns) (hperm : columns'.Perm columns) :
    Covers elems columns' where
  names n := ((hperm.map Column.name).mem_iff).trans (h.names n)
  distinct := ((hperm.map Column.name).nodup_iff).mpr h.distinct
  first c hc := h.first c (hperm.mem_iff.mp hc)

theorem Covers.subset (h : Covers elems columns) (h' : Covers elems columns') :
    columns ⊆ columns' := by
  intro c hc
  have hname : c.name ∈ columns'.map Column.name :=
    (h'.names _).mpr ((h.names _).mp (List.mem_map_of_mem hc))
  obtain ⟨c', hc', hsame⟩ := List.mem_map.mp hname
  obtain ⟨e, he, rfl⟩ := h.first c hc
  obtain ⟨e', he', rfl⟩ := h'.first c' hc'
  rw [hsame, he] at he'
  exact Option.some.inj he' ▸ hc'

theorem Schema.unique (h : Schema elems columns) (h' : Schema elems columns') :
    columns = columns' :=
  h.ordered.eq_of_mem_iff h'.ordered fun _ =>
    ⟨fun hc => h.toCovers.subset h'.toCovers hc, fun hc => h'.toCovers.subset h.toCovers hc⟩

theorem sorted_perm_unsorted (docs : List Document) :
    (inferSchemaFromSample ⟨docs, false⟩).Perm (unsorted docs.flatten) :=
  List.mergeSort_perm _ _

theorem sorted_schema (docs : List Document) :
    Schema docs.flatten (inferSchemaFromSample ⟨docs, false⟩) := by
  have hcovers := (unsorted_covers docs.flatten).perm (sorted_perm_unsorted docs)
  refine ⟨hcovers, ?_⟩
  have hsorted : (inferSchemaFromSample ⟨docs, false⟩).Pairwise (fun a b => before a b = true) :=
    List.pairwise_mergeSort (fun a b c => before_trans (a := a) (b := b) (c := c)) before_total _
  exact hsorted.imp₂ (fun _ _ => precedes_of_before) (List.pairwise_map.mp hcovers.distinct)

/-- The columns are one for each field that a sampled document has, of the type of the field's
first value, with `_id` first and as the key and the others in the order of their names. -/
theorem schema_iff :
    columns = inferSchemaFromSample ⟨docs, false⟩ ↔ Schema docs.flatten columns :=
  ⟨fun h => h ▸ sorted_schema docs, fun h => h.unique (sorted_schema docs)⟩

/-- A larger sample adds columns: those there are stay as they are and in their order. -/
theorem schema_grows (docs more : List Document) :
    (inferSchemaFromSample ⟨docs, false⟩).Sublist
      (inferSchemaFromSample ⟨docs ++ more, false⟩) := by
  have hsub : (inferSchemaFromSample ⟨docs, false⟩).Subperm
      (inferSchemaFromSample ⟨docs ++ more, false⟩) := by
    refine (sorted_perm_unsorted docs).subperm.trans
      (.trans ?_ (sorted_perm_unsorted (docs ++ more)).symm.subperm)
    rw [List.flatten_append]
    exact (unsorted_begins _ _).sublist.subperm
  exact List.sublist_of_subperm_of_pairwise hsub (sorted_schema docs).ordered
    (sorted_schema (docs ++ more)).ordered

end Schema

end DearSql.Mongo
