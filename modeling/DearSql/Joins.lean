import Mathlib.Data.List.Perm.Basic
import Mathlib.Data.List.Nodup
import Mathlib.Data.List.Sort
import Mathlib.Tactic.Basic

/-! Tables as lists of rows: lookups by a key, outer joins, and what a server may answer
to a query that has an `ORDER BY`. -/
namespace DearSql.Joins

variable {α β κ ρ : Type}

section Lookup
variable [DecidableEq κ] {bs : List β} {key : β → κ} {k : κ} {b : β}

/-- `JOIN bs ON key = k`. -/
def having (bs : List β) (key : β → κ) (k : κ) : List β :=
  bs.filter fun b => key b = k

@[simp] theorem mem_having : b ∈ having bs key k ↔ b ∈ bs ∧ key b = k := by
  simp [having]

omit [DecidableEq κ] in
theorem eq_of_key (hnd : (bs.map key).Nodup) {b' : β} (hb : b ∈ bs) (hb' : b' ∈ bs)
    (hk : key b = key b') : b = b' :=
  List.inj_on_of_nodup_map hnd hb hb' hk

/-- A key that no two rows share finds at most one row. -/
theorem having_eq (hnd : (bs.map key).Nodup) (hb : b ∈ bs) (hk : key b = k) :
    having bs key k = [b] := by
  induction bs with
  | nil => simp at hb
  | cons c bs ih =>
    rw [List.map_cons, List.nodup_cons] at hnd
    rcases List.mem_cons.mp hb with rfl | hb
    · have hrest : having bs key k = [] := by
        rw [List.eq_nil_iff_forall_not_mem]
        intro b' hb'
        rw [mem_having] at hb'
        exact hnd.1 (by rw [hk, ← hb'.2]; exact List.mem_map_of_mem hb'.1)
      simpa [having, hk] using hrest
    · have hne : key c ≠ k := by
        rintro rfl
        exact hnd.1 (hk ▸ List.mem_map_of_mem hb)
      simpa [having, hne] using ih hnd.2 hb

end Lookup

/-- Lists with the same images, where equal images have equal members. -/
theorem map_inj_on {f : α → β} {l l' : List α} (h : ∀ a ∈ l, ∀ b ∈ l', f a = f b → a = b)
    (he : l.map f = l'.map f) : l = l' := by
  induction l generalizing l' with
  | nil => exact (List.map_eq_nil_iff.mp he.symm).symm
  | cons a l ih =>
    cases l' with
    | nil => cases he
    | cons b l' =>
      obtain ⟨hab, hl⟩ := List.cons.inj he
      rw [h a List.mem_cons_self b List.mem_cons_self hab, ih (fun a ha b hb =>
        h a (List.mem_cons_of_mem _ ha) b (List.mem_cons_of_mem _ hb)) hl]

/-- A row of a `LEFT JOIN` beside its matches: kept once where there is none. -/
def orNull (ms : List β) : List (Option β) :=
  if ms.isEmpty then [none] else ms.map some

@[simp] theorem orNull_nil : orNull ([] : List β) = [none] := rfl

theorem orNull_map {γ : Type} (f : β → γ) (ms : List β) :
    orNull (ms.map f) = (orNull ms).map (Option.map f) := by
  cases ms <;> simp [orNull]

@[simp] theorem orNull_cons (b : β) (ms : List β) : orNull (b :: ms) = some b :: ms.map some := rfl

theorem map_isSome_orNull {γ : Type} (f : β → γ) (ms : List β) :
    (orNull (ms.map f)).map Option.isSome = (orNull ms).map Option.isSome := by
  simp [orNull_map, Function.comp_def]

/-- A test of the other side that all matches pass tells whether there was a match. -/
theorem map_any_orNull {ms : List β} {p : β → Bool} (h : ∀ b ∈ ms, p b) :
    (orNull ms).map (Option.any p) = (orNull ms).map Option.isSome := by
  cases ms with
  | nil => rfl
  | cons b ms => simp_all [orNull]

theorem orNull_ne_nil (ms : List β) : orNull ms ≠ [] := by
  cases ms <;> simp

/-- Rows that each yield at least one row do not get fewer. -/
theorem length_le_flatMap {xs : List α} {f : α → List β} (h : ∀ x ∈ xs, f x ≠ []) :
    xs.length ≤ (xs.flatMap f).length := by
  induction xs with
  | nil => simp
  | cons x xs ih =>
    have hx := List.length_pos_iff.mpr (h x (by simp))
    have hxs := ih fun y hy => h y (by simp [hy])
    simp only [List.length_cons, List.flatMap_cons, List.length_append]
    omega

/-- A selection row by row. -/
theorem map_filter_eq (xs : List α) (p : α → Bool) (f : α → β) :
    (xs.filter p).map f = xs.flatMap fun x => if p x then [f x] else [] := by
  induction xs with
  | nil => rfl
  | cons x xs ih => cases hp : p x <;> simp [hp, ih]

theorem flatMap_if (xs : List α) (p : α → Bool) (f : α → List β) :
    (xs.flatMap fun x => if p x then f x else []) = (xs.filter p).flatMap f := by
  induction xs with
  | nil => rfl
  | cons x xs ih => cases hp : p x <;> simp [hp, ih]

/-- The rows behind one member of a list in which it stands once. -/
theorem flatMap_eq_of_only {xs : List α} {f : α → List β} {x : α} (hnd : xs.Nodup) (hx : x ∈ xs)
    (h : ∀ y ∈ xs, y ≠ x → f y = []) : xs.flatMap f = f x := by
  induction xs with
  | nil => simp at hx
  | cons y xs ih =>
    rw [List.nodup_cons] at hnd
    rw [List.flatMap_cons]
    rcases List.mem_cons.mp hx with rfl | hx
    · have hrest : xs.flatMap f = [] := by
        rw [List.flatMap_eq_nil_iff]
        intro z hz
        exact h z (by simp [hz]) (fun e => hnd.1 (e ▸ hz))
      rw [hrest, List.append_nil]
    · have hne : y ≠ x := fun e => hnd.1 (e ▸ hx)
      rw [h y (by simp) hne, List.nil_append, ih hnd.2 hx fun z hz => h z (by simp [hz])]

/-- A join found by a key that no two rows of its left side share. -/
theorem filter_joined [DecidableEq κ] {xs : List α} {f : α → List β} {key : α → κ} {x : α}
    (hnd : (xs.map key).Nodup) (hx : x ∈ xs) :
    (xs.flatMap fun y => (f y).map fun b => (y, b)).filter (fun p => key p.1 = key x) =
      (f x).map fun b => (x, b) := by
  rw [List.filter_flatMap, flatMap_eq_of_only (.of_map _ hnd) hx]
  · exact List.filter_eq_self.mpr (List.forall_mem_map.mpr fun b _ => decide_eq_true rfl)
  · intro y hy hne
    refine List.filter_eq_nil_iff.mpr (List.forall_mem_map.mpr fun b _ hk => ?_)
    exact hne (eq_of_key hnd hy hx (of_decide_eq_true hk))

section Joined
variable {ys : List (α × β)} {p : α × β → Bool} {x : α} {cs : List β}

theorem fst_joined (h : (ys.filter p).Perm (cs.map fun c => (x, c))) {y : α × β} (hy : y ∈ ys)
    (hp : p y = true) : y.1 = x := by
  obtain ⟨c, -, rfl⟩ := List.mem_map.mp (h.mem_iff.mp (List.mem_filter.mpr ⟨hy, hp⟩))
  rfl

theorem snd_joined (h : (ys.filter p).Perm (cs.map fun c => (x, c))) :
    ((ys.filter p).map Prod.snd).Perm cs := by
  have hsnd := h.map Prod.snd
  rwa [List.map_map, show Prod.snd ∘ (fun c => (x, c)) = (id : β → β) from rfl,
    List.map_id] at hsnd

/-- The rows behind one row of the left side come in the order of the answer. -/
theorem pairwise_joined {R : α × β → α × β → Prop}
    (h : (ys.filter p).Perm (cs.map fun c => (x, c))) (hs : ys.Pairwise R) :
    ((ys.filter p).map Prod.snd).Pairwise fun a b => R (x, a) (x, b) := by
  rw [List.pairwise_map]
  refine (hs.filter _).imp_of_mem fun {y z} hy hz hyz => ?_
  have hpair {w : α × β} (hw : w ∈ ys.filter p) : (x, w.2) = w :=
    Prod.ext (fst_joined h (List.mem_filter.mp hw).1 (List.mem_filter.mp hw).2).symm rfl
  rw [hpair hy, hpair hz]
  exact hyz

end Joined

theorem length_le_flatMap_of_mem {xs : List α} {f : α → List β} {x : α} (hx : x ∈ xs) :
    (f x).length ≤ (xs.flatMap f).length := by
  induction xs with
  | nil => simp at hx
  | cons y xs ih =>
    rw [List.flatMap_cons, List.length_append]
    rcases List.mem_cons.mp hx with rfl | hx
    · omega
    · have := ih hx
      omega

/-- Two members of a list both count. -/
theorem length_add_le_flatMap {xs : List α} {f : α → List β} {x y : α} (hx : x ∈ xs)
    (hy : y ∈ xs) (hne : y ≠ x) : (f x).length + (f y).length ≤ (xs.flatMap f).length := by
  classical
  have hperm := (List.perm_cons_erase hx).flatMap_right f
  have hrest := length_le_flatMap_of_mem (f := f) ((List.mem_erase_of_ne hne).mpr hy)
  rw [hperm.length_eq, List.flatMap_cons, List.length_append]
  omega

section Product
variable {γ : Type} {xs : List α} {ys : List β}

/-- A product that shows each row of its left side once has one row on the right at most. -/
theorem length_le_one_of_nodup_left {f : α → γ}
    (h : (xs.flatMap fun x => ys.map fun _ => f x).Nodup) (hxs : xs ≠ []) : ys.length ≤ 1 := by
  obtain ⟨x, xs, rfl⟩ := List.exists_cons_of_ne_nil hxs
  rw [List.flatMap_cons] at h
  have hx := h.of_append_left
  rwa [List.map_const', List.nodup_replicate] at hx

theorem length_le_one_of_nodup_right {g : β → γ}
    (h : (xs.flatMap fun _ => ys.map g).Nodup) (hys : ys ≠ []) : xs.length ≤ 1 := by
  obtain ⟨y, ys, rfl⟩ := List.exists_cons_of_ne_nil hys
  match xs with
  | [] => simp
  | [_] => simp
  | _ :: _ :: _ => simp at h

end Product

theorem filter_range' {m n : ℕ} (h : m ≤ n) :
    (List.range' 1 n).filter (fun i => i ≤ m) = List.range' 1 m := by
  obtain ⟨k, rfl⟩ := Nat.exists_eq_add_of_le h
  rw [← List.range'_append_1, List.filter_append]
  have hin : (List.range' 1 m).filter (fun i => i ≤ m) = List.range' 1 m :=
    List.filter_eq_self.mpr fun i hi => by
      rw [List.mem_range'_1] at hi
      simpa using by omega
  have hout : (List.range' (1 + m) k).filter (fun i => i ≤ m) = [] :=
    List.filter_eq_nil_iff.mpr fun i hi => by
      rw [List.mem_range'_1] at hi
      simpa using by omega
  rw [hin, hout, List.append_nil]

/-- `generate_series` over the places of two lists goes through their pairs. -/
theorem flatMap_range' {γ : Type} {xs : List α} {ys : List β} (hlen : ys.length = xs.length)
    (f : α → β → List γ) :
    ((List.range' 1 xs.length).flatMap fun i =>
        xs[i - 1]?.toList.flatMap fun x => ys[i - 1]?.toList.flatMap fun y => f x y) =
      (xs.zip ys).flatMap fun p => f p.1 p.2 := by
  rw [List.range'_eq_map_range, List.flatMap_map]
  simp only [Nat.add_sub_cancel_left]
  induction xs generalizing ys with
  | nil => simp
  | cons x xs ih =>
    cases ys with
    | nil => simp at hlen
    | cons y ys =>
      rw [List.length_cons, List.range_succ_eq_map, List.flatMap_cons, List.flatMap_map]
      have hrest := ih (by simpa using hlen : ys.length = xs.length)
      simp [hrest]

/-- What a server may answer to a query that yields `rows`, each beside its `ORDER BY`
key: the rows in some order in which no row stands before one of a smaller key. -/
def Answers (lt : κ → κ → Prop) (rows : List (κ × ρ)) (res : List ρ) : Prop :=
  ∃ out : List (κ × ρ), out.Perm rows ∧ out.Pairwise (fun x y => ¬ lt y.1 x.1) ∧ out.map Prod.snd = res

theorem Answers.perm {lt : κ → κ → Prop} {rows : List (κ × ρ)} {res : List ρ}
    (h : Answers lt rows res) : res.Perm (rows.map Prod.snd) := by
  obtain ⟨out, hperm, -, rfl⟩ := h
  exact hperm.map _

/-- An answer read back as the joined rows it shows. -/
theorem Answers.lift {lt : κ → κ → Prop} {xs : List α} {key : α → κ} {row : α → ρ} {res : List ρ}
    (h : Answers lt (xs.map fun x => (key x, row x)) res) :
    ∃ ys : List α, ys.Perm xs ∧ ys.Pairwise (fun x y => ¬ lt (key y) (key x)) ∧
      res = ys.map row := by
  obtain ⟨out, hperm, hpair, rfl⟩ := h
  have hcomp : Relation.Comp (fun l m => l = List.map (fun x => (key x, row x)) m)
      List.Perm out xs := by
    rw [List.eq_map_comp_perm]
    exact hperm
  obtain ⟨ys, rfl, hys⟩ := hcomp
  exact ⟨ys, hys, List.pairwise_map.mp hpair, by simp⟩

/-- The answer of a server that sorts by the key and keeps equal keys in their order. -/
def sorted [LinearOrder κ] (rows : List (κ × ρ)) : List ρ :=
  (rows.insertionSort fun x y => x.1 ≤ y.1).map Prod.snd

theorem sorted_answers [LinearOrder κ] (rows : List (κ × ρ)) :
    Answers (· < ·) rows (sorted rows) := by
  have : Std.Total fun x y : κ × ρ => x.1 ≤ y.1 := ⟨fun x y => le_total x.1 y.1⟩
  have : IsTrans (κ × ρ) fun x y => x.1 ≤ y.1 := ⟨fun _ _ _ => le_trans⟩
  refine ⟨_, List.perm_insertionSort _ _, ?_, rfl⟩
  exact (List.pairwise_insertionSort _ rows).imp fun h => not_lt.mpr h

end DearSql.Joins
