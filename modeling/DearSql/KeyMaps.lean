import Mathlib.Data.List.Dedup
import Mathlib.Data.List.Induction
import Mathlib.Data.List.Lex
import Mathlib.Data.List.Sort

/-! Maps as lists of fields in the order of their keys, filled one field at a time; an equal key
gets the later value. -/
namespace DearSql.KeyMaps

variable {κ β : Type}

section Lookups

variable [DecidableEq κ]

def get (key : κ) (fields : List (κ × β)) : Option β :=
  (fields.find? fun f => f.1 = key).map Prod.snd

/-- The value of the last field with the key. -/
def last (key : κ) (fields : List (κ × β)) : Option β := get key fields.reverse

theorem get_cons (key : κ) (f : κ × β) (fields : List (κ × β)) :
    get key (f :: fields) = if f.1 = key then some f.2 else get key fields := by
  rw [get, List.find?_cons]
  by_cases h : f.1 = key
  · simp [h]
  · simp [h, get]

theorem get_map {γ : Type} (g : β → γ) (key : κ) (fields : List (κ × β)) :
    get key (fields.map fun f => (f.1, g f.2)) = (get key fields).map g := by
  induction fields with
  | nil => rfl
  | cons f fields ih =>
    rw [List.map_cons, get_cons, get_cons, ih]
    split_ifs <;> rfl

theorem last_map {γ : Type} (g : β → γ) (key : κ) (fields : List (κ × β)) :
    last key (fields.map fun f => (f.1, g f.2)) = (last key fields).map g := by
  rw [last, ← List.map_reverse, get_map, last]

end Lookups

variable [LinearOrder κ]

def assign (key : κ) (value : β) : List (κ × β) → List (κ × β)
  | [] => [(key, value)]
  | f :: fields =>
    if key < f.1 then (key, value) :: f :: fields
    else if key = f.1 then (key, value) :: fields
    else f :: assign key value fields

def ofFields (fields : List (κ × β)) : List (κ × β) :=
  fields.foldl (fun map f => assign f.1 f.2 map) []

theorem ofFields_concat (fields : List (κ × β)) (f : κ × β) :
    ofFields (fields ++ [f]) = assign f.1 f.2 (ofFields fields) := by
  rw [ofFields, List.foldl_append]
  rfl

theorem get_assign [DecidableEq κ] (key key' : κ) (value : β) (map : List (κ × β)) :
    get key' (assign key value map) = if key = key' then some value else get key' map := by
  induction map with
  | nil => exact get_cons key' (key, value) []
  | cons f map ih =>
    rw [assign]
    by_cases hlt : key < f.1
    · rw [if_pos hlt, get_cons]
    · rw [if_neg hlt]
      by_cases heq : key = f.1
      · rw [if_pos heq, get_cons, get_cons, heq]
        split_ifs <;> rfl
      · rw [if_neg heq, get_cons, get_cons, ih]
        by_cases hkey : f.1 = key'
        · rw [if_pos hkey, if_neg fun h => heq (h.trans hkey.symm), if_pos hkey]
        · rw [if_neg hkey, if_neg hkey]

theorem get_ofFields [DecidableEq κ] (key : κ) (fields : List (κ × β)) :
    get key (ofFields fields) = last key fields := by
  induction fields using List.reverseRecOn with
  | nil => rfl
  | append_singleton fields f ih =>
    rw [ofFields_concat, get_assign, ih, last, last, List.reverse_concat, get_cons]

theorem mem_keys_assign {key key' : κ} {value : β} {map : List (κ × β)} :
    key' ∈ (assign key value map).map Prod.fst ↔ key' = key ∨ key' ∈ map.map Prod.fst := by
  induction map with
  | nil => simp [assign]
  | cons f map ih =>
    rw [assign]
    split_ifs with hlt heq
    · rw [List.map_cons, List.mem_cons]
    · rw [List.map_cons, List.map_cons, List.mem_cons, List.mem_cons, ← heq, or_self_left]
    · rw [List.map_cons, List.map_cons, List.mem_cons, List.mem_cons, ih, or_left_comm]

theorem mem_keys_ofFields {key : κ} {fields : List (κ × β)} :
    key ∈ (ofFields fields).map Prod.fst ↔ key ∈ fields.map Prod.fst := by
  induction fields using List.reverseRecOn with
  | nil => rfl
  | append_singleton fields f ih =>
    rw [ofFields_concat, mem_keys_assign, ih, List.map_append, List.mem_append, or_comm]
    simp

theorem assign_ordered {key : κ} {value : β} {map : List (κ × β)}
    (h : (map.map Prod.fst).Pairwise (· < ·)) :
    ((assign key value map).map Prod.fst).Pairwise (· < ·) := by
  induction map with
  | nil => exact List.pairwise_singleton _ _
  | cons f map ih =>
    obtain ⟨hhead, htail⟩ := List.pairwise_cons.mp h
    rw [assign]
    split_ifs with hlt heq
    · refine List.pairwise_cons.mpr ⟨fun k hk => ?_, h⟩
      rcases List.mem_cons.mp hk with rfl | hk
      · exact hlt
      · exact hlt.trans (hhead k hk)
    · exact List.pairwise_cons.mpr ⟨heq ▸ hhead, htail⟩
    · refine List.pairwise_cons.mpr ⟨fun k hk => ?_, ih htail⟩
      rcases mem_keys_assign.mp hk with rfl | hk
      · exact lt_of_le_of_ne (not_lt.mp hlt) (Ne.symm heq)
      · exact hhead k hk

theorem ofFields_ordered (fields : List (κ × β)) :
    ((ofFields fields).map Prod.fst).Pairwise (· < ·) := by
  induction fields using List.reverseRecOn with
  | nil => exact .nil
  | append_singleton fields f ih =>
    rw [ofFields_concat]
    exact assign_ordered ih

/-- Lists in ascending order are equal when they have the same members. -/
theorem eq_of_ordered {as bs : List κ} (ha : as.Pairwise (· < ·)) (hb : bs.Pairwise (· < ·))
    (h : ∀ k, k ∈ as ↔ k ∈ bs) : as = bs :=
  List.Perm.eq_of_pairwise (fun _ _ _ _ hab hba => absurd hab hba.asymm) ha hb
    ((List.perm_ext_iff_of_nodup (ha.imp ne_of_lt) (hb.imp ne_of_lt)).mpr h)

/-- The keys of the map that satisfy `p` stand as in the fields exactly where those ascend. -/
theorem filter_keys_ofFields_iff [DecidableEq κ] (p : κ → Bool) (fields : List (κ × β)) :
    ((ofFields fields).map Prod.fst).filter p = ((fields.map Prod.fst).filter p).dedup ↔
      ((fields.map Prod.fst).filter p).dedup.Pairwise (· < ·) := by
  have hordered := (ofFields_ordered fields).filter p
  constructor
  · intro h
    rw [← h]
    exact hordered
  · intro h
    refine eq_of_ordered hordered h fun k => ?_
    rw [List.mem_dedup, List.mem_filter, List.mem_filter, mem_keys_ofFields]

end DearSql.KeyMaps
