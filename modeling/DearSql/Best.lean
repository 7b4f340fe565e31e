import Mathlib

/-! A search that keeps the first of the best elements. -/
namespace DearSql.Best

variable {α : Type*} {p : α → Bool} {rank : α → ℤ} {l : List α}

theorem findSome_congr {β γ : Type*} {l : List β} {f g : β → Option γ} (h : ∀ b ∈ l, f b = g b) :
    l.findSome? f = l.findSome? g := by
  induction l with
  | nil => rfl
  | cons b l ih =>
    obtain ⟨hb, hl⟩ := List.forall_mem_cons.mp h
    rw [List.findSome?_cons, List.findSome?_cons, hb, ih hl]

/-- One turn of a search that keeps the first of the best. -/
def keepBest (p : α → Bool) (rank : α → ℤ) (best : ℤ × Option α) (x : α) : ℤ × Option α :=
  if !p x then best else if best.1 < rank x then (rank x, some x) else best

/-- The first of the best elements, and its rank; below zero where there is none. -/
def IsBest (p : α → Bool) (rank : α → ℤ) (l : List α) : ℤ × Option α → Prop
  | (b, none) => b < 0 ∧ ∀ x ∈ l, p x = false
  | (b, some x) => b = rank x ∧ ∃ front back, l = front ++ x :: back ∧ p x = true ∧
      (∀ y ∈ front, p y = true → rank y < rank x) ∧ ∀ y ∈ back, p y = true → rank y ≤ rank x

theorem isBest_foldl (hrank : ∀ x, 0 ≤ rank x) (l : List α) :
    IsBest p rank l (l.foldl (keepBest p rank) (-1, none)) := by
  induction l using List.reverseRecOn with
  | nil => exact ⟨by omega, by simp⟩
  | append_singleton l x ih =>
    rw [List.foldl_append, List.foldl_cons, List.foldl_nil]
    generalize l.foldl (keepBest p rank) (-1, none) = best at ih
    obtain ⟨b, o⟩ := best
    unfold keepBest
    split_ifs with hp hlt
    · have hp : p x = false := by simpa using hp
      cases o with
      | none =>
        refine ⟨ih.1, fun y hy => ?_⟩
        rcases List.mem_append.mp hy with hy | hy
        · exact ih.2 y hy
        · exact List.mem_singleton.mp hy ▸ hp
      | some z =>
        obtain ⟨hb, front, back, rfl, hz, hfront, hback⟩ := ih
        refine ⟨hb, front, back ++ [x], by simp, hz, hfront, fun y hy hpy => ?_⟩
        rcases List.mem_append.mp hy with hy | hy
        · exact hback y hy hpy
        · rw [List.mem_singleton.mp hy, hp] at hpy
          cases hpy
    · have hp : p x = true := by simpa using hp
      refine ⟨rfl, l, [], rfl, hp, fun y hy hpy => ?_, by simp⟩
      cases o with
      | none => simp [ih.2 y hy] at hpy
      | some z =>
        obtain ⟨rfl, front, back, rfl, hz, hfront, hback⟩ := ih
        rcases List.mem_append.mp hy with hy | hy
        · exact (hfront y hy hpy).trans hlt
        · rcases List.mem_cons.mp hy with rfl | hy
          · exact hlt
          · exact (hback y hy hpy).trans_lt hlt
    · cases o with
      | none =>
        have h1 := ih.1
        have h2 := hrank x
        simp only at hlt
        omega
      | some z =>
        obtain ⟨rfl, front, back, rfl, hz, hfront, hback⟩ := ih
        refine ⟨rfl, front, back ++ [x], by simp, hz, hfront, fun y hy hpy => ?_⟩
        rcases List.mem_append.mp hy with hy | hy
        · exact hback y hy hpy
        · rw [List.mem_singleton.mp hy]
          exact not_lt.mp hlt

theorem IsBest.unique {b b' : ℤ} {o o' : Option α} (h : IsBest p rank l (b, o))
    (h' : IsBest p rank l (b', o')) : o = o' := by
  cases o with
  | none =>
    cases o' with
    | none => rfl
    | some z =>
      obtain ⟨-, front, back, rfl, hz, -⟩ := h'
      simp [h.2 z (by simp)] at hz
  | some x =>
    obtain ⟨-, front, back, rfl, hx, hfront, hback⟩ := h
    cases o' with
    | none => simp [h'.2 x (by simp)] at hx
    | some z =>
      obtain ⟨-, front', back', hl, hz, hfront', hback'⟩ := h'
      rcases List.append_eq_append_iff.mp hl with ⟨m, rfl, hm⟩ | ⟨m, rfl, hm⟩
      · cases m with
        | nil => exact congrArg some (List.cons.inj hm).1
        | cons u m =>
          obtain ⟨rfl, rfl⟩ := List.cons.inj hm
          have h3 := hfront' x (by simp) hx
          have h4 := hback z (by simp) hz
          omega
      · cases m with
        | nil => exact congrArg some (List.cons.inj hm).1.symm
        | cons u m =>
          obtain ⟨rfl, rfl⟩ := List.cons.inj hm
          have h3 := hfront z (by simp) hz
          have h4 := hback' x (by simp) hx
          omega

/-- The best of all the elements that have both properties is the best of those that have one. -/
theorem IsBest.filter {q : α → Bool} {best : ℤ × Option α}
    (h : IsBest (fun x => q x && p x) rank l best) : IsBest p rank (l.filter q) best := by
  obtain ⟨b, o⟩ := best
  cases o with
  | none =>
    refine ⟨h.1, fun x hx => ?_⟩
    obtain ⟨hx, hq⟩ := List.mem_filter.mp hx
    simpa [hq] using h.2 x hx
  | some x =>
    obtain ⟨hb, front, back, rfl, hx, hfront, hback⟩ := h
    obtain ⟨hq, hp⟩ := Bool.and_eq_true_iff.mp hx
    refine ⟨hb, front.filter q, back.filter q, ?_, hp, fun y hy hpy => ?_, fun y hy hpy => ?_⟩
    · rw [List.filter_append, List.filter_cons_of_pos hq]
    · obtain ⟨hy, hqy⟩ := List.mem_filter.mp hy
      exact hfront y hy (by simp [hqy, hpy])
    · obtain ⟨hy, hqy⟩ := List.mem_filter.mp hy
      exact hback y hy (by simp [hqy, hpy])

/-- A result with its rank. -/
def ranked (rank : α → ℤ) (o : Option α) : ℤ × Option α := (o.elim (-1) rank, o)

/-- Where the best come first, an element goes before those that are no better. -/
theorem find_orderedInsert (p : α → Bool) (x : α) (hl : l.Pairwise fun y z => rank z ≤ rank y) :
    (l.orderedInsert (fun y z => rank z ≤ rank y) x).find? p =
      if p x = true ∧ ∀ y ∈ l.find? p, rank y ≤ rank x then some x else l.find? p := by
  induction l with
  | nil => cases hx : p x <;> simp [hx]
  | cons z l ih =>
    obtain ⟨hz, hl⟩ := List.pairwise_cons.mp hl
    have hle : ∀ y ∈ (z :: l).find? p, rank y ≤ rank z := fun y hy => by
      rcases List.mem_cons.mp (List.mem_of_find?_eq_some hy) with rfl | hin
      · exact le_rfl
      · exact hz y hin
    rw [List.orderedInsert_cons]
    split_ifs with hzx hcond hcond
    · rw [List.find?_cons_of_pos hcond.1]
    · rw [List.find?_cons_of_neg fun hpx => hcond ⟨hpx, fun y hy => (hle y hy).trans hzx⟩]
    · by_cases hpz : p z = true
      · rw [List.find?_cons_of_pos hpz] at hcond
        exact absurd (hcond.2 z rfl) hzx
      · rw [List.find?_cons_of_neg hpz] at hcond ⊢
        rw [ih hl, if_pos hcond]
    · by_cases hpz : p z = true
      · rw [List.find?_cons_of_pos hpz, List.find?_cons_of_pos hpz]
      · rw [List.find?_cons_of_neg hpz] at hcond
        rw [List.find?_cons_of_neg hpz, List.find?_cons_of_neg hpz, ih hl, if_neg hcond]

/-- The best element is the first one with the property where the best come first. -/
theorem isBest_insertionSort (p : α → Bool) (rank : α → ℤ) (l : List α) :
    IsBest p rank l (ranked rank ((l.insertionSort fun x y => rank y ≤ rank x).find? p)) := by
  induction l with
  | nil => exact ⟨neg_one_lt_zero, by simp⟩
  | cons x l ih =>
    have htrans : IsTrans α fun x y => rank y ≤ rank x := ⟨fun _ _ _ h h' => h'.trans h⟩
    have htotal : Std.Total fun x y : α => rank y ≤ rank x := ⟨fun x y => le_total _ _⟩
    rw [List.insertionSort_cons,
      find_orderedInsert p x (List.pairwise_insertionSort (fun x y => rank y ≤ rank x) l)]
    generalize (l.insertionSort fun x y => rank y ≤ rank x).find? p = o at ih ⊢
    split_ifs with hcond
    · refine ⟨rfl, [], l, rfl, hcond.1, by simp, fun y hy hpy => ?_⟩
      cases o with
      | none => simp [ih.2 y hy] at hpy
      | some z =>
        obtain ⟨-, front, back, rfl, hz, hfront, hback⟩ := ih
        have hzx := hcond.2 z rfl
        rcases List.mem_append.mp hy with hy | hy
        · exact (hfront y hy hpy).le.trans hzx
        · rcases List.mem_cons.mp hy with rfl | hy
          · exact hzx
          · exact (hback y hy hpy).trans hzx
    · cases o with
      | none =>
        have hpx : p x = false := by simpa using hcond
        exact ⟨ih.1, List.forall_mem_cons.mpr ⟨hpx, ih.2⟩⟩
      | some z =>
        obtain ⟨hb, front, back, rfl, hz, hfront, hback⟩ := ih
        refine ⟨hb, x :: front, back, rfl, hz, List.forall_mem_cons.mpr ⟨fun hpx => ?_, hfront⟩, hback⟩
        exact lt_of_not_ge fun hle => hcond ⟨hpx, by simpa using hle⟩

/-- The best element is the first one of the first class with such an element, where the classes
get worse. -/
theorem isBest_findSome {κ : Type*} [DecidableEq κ] {key : α → κ} {r : κ → ℤ} {c : List κ}
    (hc : c.Pairwise fun h k => r k < r h) (hp : ∀ x ∈ l, p x = true → key x ∈ c) :
    IsBest p (fun x => r (key x)) l (ranked (fun x => r (key x))
      (c.findSome? fun h => l.find? fun x => key x = h && p x)) := by
  cases hfound : c.findSome? fun h => l.find? fun x => key x = h && p x with
  | none =>
    refine ⟨neg_one_lt_zero, fun x hx => ?_⟩
    by_contra hpx
    have hnone := List.findSome?_eq_none_iff.mp hfound _ (hp x hx (by simpa using hpx))
    have := List.find?_eq_none.mp hnone x hx
    simp [hpx] at this
  | some x =>
    obtain ⟨c₁, h, c₂, rfl, hfind, hnone⟩ := List.findSome?_eq_some_iff.mp hfound
    obtain ⟨hx, front, back, rfl, hfront⟩ := List.find?_eq_some_iff_append.mp hfind
    rw [Bool.and_eq_true, decide_eq_true_eq] at hx
    obtain ⟨rfl, hpx⟩ := hx
    have hlate : ∀ y ∈ front ++ x :: back, p y = true → key y ≠ key x → r (key y) < r (key x) := by
      intro y hy hpy hne
      rcases List.mem_append.mp (hp y hy hpy) with hin | hin
      · have := List.find?_eq_none.mp (hnone _ hin) y hy
        simp [hpy] at this
      · have htail := (List.pairwise_cons.mp (List.pairwise_append.mp hc).2.1).1
        exact htail _ ((List.mem_cons.mp hin).resolve_left hne)
    refine ⟨rfl, front, back, rfl, hpx, fun y hy hpy => ?_, fun y hy hpy => ?_⟩
    · refine hlate y (by simp [hy]) hpy fun he => ?_
      have := hfront y hy
      simp [he, hpy] at this
    · by_cases he : key y = key x
      · exact (congrArg r he).le
      · exact (hlate y (by simp [hy]) hpy he).le

/-- An element that occurs once is found where none before it is as good and none after it is
better. -/
theorem foldl_keepBest_eq (hrank : ∀ x, 0 ≤ rank x) {front back : List α} {x : α}
    (hl : l = front ++ x :: back) (hx : p x = true) (hfront : x ∉ front) (hback : x ∉ back) :
    (l.foldl (keepBest p rank) (-1, none)).2 = some x ↔
      (∀ y ∈ front, p y = true → rank y < rank x) ∧ ∀ y ∈ back, p y = true → rank y ≤ rank x := by
  have h := @isBest_foldl _ p rank hrank l
  generalize l.foldl (keepBest p rank) (-1, none) = best at h
  obtain ⟨b, o⟩ := best
  cases o with
  | none =>
    have := h.2 x (by simp [hl])
    simp [hx] at this
  | some z =>
    obtain ⟨-, front', back', hl', hz, hfront', hback'⟩ := h
    rw [hl] at hl'
    constructor
    · intro he
      obtain rfl := Option.some_inj.mp he
      obtain ⟨rfl, rfl⟩ : front = front' ∧ back = back' := by
        rcases List.append_eq_append_iff.mp hl' with ⟨m, rfl, hm⟩ | ⟨m, rfl, hm⟩
        · cases m with
          | nil => simpa using hm
          | cons u m =>
            obtain ⟨rfl, rfl⟩ := List.cons.inj hm
            simp at hback
        · cases m with
          | nil => simpa using hm.symm
          | cons u m =>
            obtain ⟨rfl, rfl⟩ := List.cons.inj hm
            simp at hfront
      exact ⟨hfront', hback'⟩
    · rintro ⟨h1, h2⟩
      have hx' : IsBest p rank l (rank x, some x) := ⟨rfl, front, back, hl, hx, h1, h2⟩
      have hz' : IsBest p rank l (rank z, some z) := ⟨rfl, front', back', hl ▸ hl', hz, hfront', hback'⟩
      exact hz'.unique hx'

end DearSql.Best
