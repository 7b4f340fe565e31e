import Mathlib

/-! Pages of a list of which only a front is at hand. To show a page, the front that ends with it is
sorted and what the pages before it take up is dropped; the list itself falls into blocks of the
same size. -/
namespace DearSql.Paging

variable {α : Type*}

section Blocks

variable {l : List α} {size k : ℕ} {x : α}

def block (l : List α) (size k : ℕ) : List α := (l.drop (k * size)).take size

theorem take_block (l : List α) (size k : ℕ) :
    l.take ((k + 1) * size) = l.take (k * size) ++ block l size k := by
  rw [Nat.succ_mul, List.take_add, block]

theorem mem_block (hs : 0 < size) : x ∈ block l size k ↔ ∃ i, l[i]? = some x ∧ i / size = k := by
  rw [block, List.mem_iff_getElem?]
  constructor
  · rintro ⟨j, hj⟩
    rw [List.getElem?_take] at hj
    split_ifs at hj with hlt
    · rw [List.getElem?_drop] at hj
      refine ⟨k * size + j, hj, ?_⟩
      rw [Nat.mul_comm, Nat.mul_add_div hs, Nat.div_eq_of_lt hlt, Nat.add_zero]
  · rintro ⟨i, hi, rfl⟩
    refine ⟨i % size, ?_⟩
    rw [List.getElem?_take_of_lt (Nat.mod_lt i hs), List.getElem?_drop, Nat.mul_comm,
      Nat.div_add_mod, hi]

theorem mem_take_blocks (hs : 0 < size) :
    x ∈ l.take (k * size) ↔ ∃ j < k, x ∈ block l size j := by
  have hlt : ∀ i, i < k * size ↔ i / size < k := fun i => (Nat.div_lt_iff_lt_mul hs).symm
  rw [List.mem_iff_getElem?]
  constructor
  · rintro ⟨i, hi⟩
    rw [List.getElem?_take] at hi
    split_ifs at hi with h
    exact ⟨i / size, (hlt i).mp h, (mem_block hs).mpr ⟨i, hi, rfl⟩⟩
  · rintro ⟨j, hj, hx⟩
    obtain ⟨i, hi, rfl⟩ := (mem_block hs).mp hx
    exact ⟨i, by rw [List.getElem?_take_of_lt ((hlt i).mpr hj), hi]⟩

/-- Without repetitions the blocks have nothing in common. -/
theorem block_unique (hl : l.Nodup) (hs : 0 < size) {j : ℕ} (hj : x ∈ block l size j)
    (hk : x ∈ block l size k) : j = k := by
  obtain ⟨i, hi, rfl⟩ := (mem_block hs).mp hj
  obtain ⟨i', hi', rfl⟩ := (mem_block hs).mp hk
  have hlt := (List.getElem?_eq_some_iff.mp hi).1
  rw [(List.getElem?_inj hlt hl).mp (hi.trans hi'.symm)]

end Blocks

variable [LinearOrder α]

def sorted (l : List α) : List α := l.mergeSort fun a b => decide (a ≤ b)

def page (l : List α) (size k : ℕ) : List α := (sorted (l.take ((k + 1) * size))).drop (k * size)

/-- Every entry comes after all entries of earlier blocks. -/
def Ascends (l : List α) (size : ℕ) : Prop :=
  ∀ k, ∀ a ∈ l.take (k * size), ∀ b ∈ block l size k, a < b

/-- Of the first `m` pages exactly one place shows the entry. -/
def ShownOnce (l : List α) (size m : ℕ) (x : α) : Prop :=
  ∃! p : ℕ × ℕ, p.1 < m ∧ (page l size p.1)[p.2]? = some x

section Sorting

variable {l : List α}

theorem sorted_perm (l : List α) : (sorted l).Perm l := List.mergeSort_perm _ _

theorem sorted_pairwise (l : List α) : (sorted l).Pairwise (· ≤ ·) := by
  have h : (sorted l).Pairwise fun a b => decide (a ≤ b) = true :=
    List.pairwise_mergeSort (fun a b c => by simpa using le_trans)
      (fun a b => by simpa using le_total a b) l
  exact h.imp fun hab => by simpa using hab

@[simp] theorem length_sorted (l : List α) : (sorted l).length = l.length := (sorted_perm l).length_eq

@[simp] theorem mem_sorted {x : α} : x ∈ sorted l ↔ x ∈ l := (sorted_perm l).mem_iff

theorem sorted_append {m : List α} (h : ∀ a ∈ l, ∀ b ∈ m, a ≤ b) :
    sorted (l ++ m) = sorted l ++ sorted m := by
  have hperm : (sorted (l ++ m)).Perm (sorted l ++ sorted m) :=
    (sorted_perm _).trans ((sorted_perm l).append (sorted_perm m)).symm
  refine hperm.eq_of_pairwise (fun a b _ _ => le_antisymm) (sorted_pairwise _) ?_
  exact List.pairwise_append.mpr ⟨sorted_pairwise l, sorted_pairwise m, fun a ha b hb =>
    h a (mem_sorted.mp ha) b (mem_sorted.mp hb)⟩

end Sorting

section Pages

variable {l : List α} {size k : ℕ}

theorem nodup_page (hl : l.Nodup) : (page l size k).Nodup :=
  ((sorted_perm _).nodup_iff.mpr (hl.sublist (List.take_sublist _ _))).sublist (List.drop_sublist _ _)

/-- Where a block comes after all before it, its page shows it. -/
theorem page_eq (h : ∀ a ∈ l.take (k * size), ∀ b ∈ block l size k, a ≤ b) :
    page l size k = sorted (block l size k) := by
  rw [page, take_block, sorted_append h]
  rcases Nat.le_total (k * size) l.length with hle | hle
  · rw [List.drop_left' (by simp [hle])]
  · have hnil : block l size k = [] := by simp [block, hle]
    rw [hnil, List.drop_eq_nil_of_le (by simp [sorted, hle])]
    simp [sorted]

end Pages

section Once

variable {l : List α} {size m : ℕ}

/-- Where no entry is shown twice, every page shows its block. -/
theorem page_perm (hl : l.Nodup) (hs : 0 < size) (h : ∀ x ∈ l, ShownOnce l size m x) {k : ℕ}
    (hk : k < m) : (page l size k).Perm (block l size k) := by
  induction k using Nat.strong_induction_on with
  | _ k ih =>
    have hsub : page l size k ⊆ block l size k := by
      intro x hx
      have hmem : x ∈ l.take (k * size) ++ block l size k := by
        rw [← take_block]
        exact mem_sorted.mp (List.mem_of_mem_drop hx)
      rcases List.mem_append.mp hmem with hbefore | hin
      · -- a page before has already shown it
        obtain ⟨j, hj, hxj⟩ := (mem_take_blocks hs).mp hbefore
        have hjm := hj.trans hk
        obtain ⟨i, hi⟩ := List.mem_iff_getElem?.mp ((ih j hj hjm).mem_iff.mpr hxj)
        obtain ⟨i', hi'⟩ := List.mem_iff_getElem?.mp hx
        have hsame : (j, i) = (k, i') :=
          (h x (List.mem_of_mem_take hbefore)).unique ⟨hjm, hi⟩ ⟨hk, hi'⟩
        exact absurd (congrArg Prod.fst hsame) hj.ne
      · exact hin
    refine ((nodup_page hl).subperm hsub).perm_of_length_le ?_
    rw [page, block, List.length_drop, length_sorted, List.length_take, List.length_take,
      List.length_drop, Nat.succ_mul]
    omega

theorem shownOnce_of_ascends (hl : l.Nodup) (hs : 0 < size) (h : Ascends l size)
    (hlen : l.length ≤ m * size) {x : α} (hx : x ∈ l) : ShownOnce l size m x := by
  have hpage : ∀ k, page l size k = sorted (block l size k) := fun k =>
    page_eq fun a ha b hb => (h k a ha b hb).le
  have hmem : ∀ {k j : ℕ}, (page l size k)[j]? = some x → x ∈ block l size k := fun hj =>
    mem_sorted.mp (hpage _ ▸ List.mem_of_getElem? hj)
  obtain ⟨i, hi⟩ := List.mem_iff_getElem?.mp hx
  have hlt := (List.getElem?_eq_some_iff.mp hi).1
  have hblock := (mem_block hs).mpr ⟨i, hi, rfl⟩
  have hk : i / size < m := (Nat.div_lt_iff_lt_mul hs).mpr (by omega)
  obtain ⟨j, hj⟩ := List.mem_iff_getElem?.mp (mem_sorted.mpr hblock)
  refine ⟨(i / size, j), ⟨hk, (hpage _).symm ▸ hj⟩, ?_⟩
  rintro ⟨k', j'⟩ ⟨-, hj'⟩
  dsimp only at hj'
  obtain rfl := block_unique hl hs (hmem hj') hblock
  have hjlt := (List.getElem?_eq_some_iff.mp hj').1
  rw [← hpage] at hj
  rw [(List.getElem?_inj hjlt (nodup_page hl)).mp (hj'.trans hj.symm)]

/-- The first pages show every entry once exactly where they have room for all and every entry
comes after all of earlier blocks. -/
theorem shownOnce_iff (hl : l.Nodup) (hs : 0 < size) :
    (∀ x ∈ l, ShownOnce l size m x) ↔ l.length ≤ m * size ∧ Ascends l size := by
  refine ⟨fun h => ?_, fun h x hx => shownOnce_of_ascends hl hs h.2 h.1 hx⟩
  have hperm : ∀ k < m, (page l size k).Perm (block l size k) := fun k hk => page_perm hl hs h hk
  have hlen : l.length ≤ m * size := by
    by_contra hlt
    have hget := List.getElem?_eq_getElem (not_le.mp hlt)
    obtain ⟨⟨k, j⟩, ⟨hk, hj⟩, -⟩ := h _ (List.mem_of_getElem? hget)
    have hin := (hperm k hk).mem_iff.mp (List.mem_of_getElem? hj)
    have hlast := (mem_block hs).mpr ⟨m * size, hget, Nat.mul_div_cancel m hs⟩
    have := block_unique hl hs hin hlast
    omega
  refine ⟨hlen, fun k a ha b hb => ?_⟩
  have hk : k < m := by
    by_contra hge
    have hnil : block l size k = [] := by
      rw [block, List.drop_eq_nil_of_le (hlen.trans (Nat.mul_le_mul_right size (not_lt.mp hge))),
        List.take_nil]
    rw [hnil] at hb
    cases hb
  have hshown := (hperm k hk).mem_iff.mpr hb
  obtain ⟨j, hj, haj⟩ := (mem_take_blocks hs).mp ha
  have hne : a ≠ b := by
    rintro rfl
    exact hj.ne (block_unique hl hs haj hb)
  have hmem : a ∈ sorted (l.take ((k + 1) * size)) := by
    rw [mem_sorted, take_block]
    exact List.mem_append_left _ ha
  have hpairs := sorted_pairwise (l.take ((k + 1) * size))
  rw [← List.take_append_drop (k * size) (sorted (l.take ((k + 1) * size)))] at hmem hpairs
  rcases List.mem_append.mp hmem with hfront | hback
  · exact lt_of_le_of_ne ((List.pairwise_append.mp hpairs).2.2 a hfront b hshown) hne
  · have hin := (hperm k hk).mem_iff.mp hback
    exact absurd (block_unique hl hs haj hin) hj.ne

end Once
end DearSql.Paging
