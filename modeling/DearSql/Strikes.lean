import Mathlib

/-! Striking bracketed groups out of a text that has another text behind it. -/
namespace DearSql.Strikes

variable {α : Type*}

/-- Brackets, and the groups between them, which have no bracket inside. -/
structure Brackets (α : Type*) where
  opening : α
  closing : α
  ne : opening ≠ closing
  group : List α → Prop
  no_opening : ∀ u, group u → opening ∉ u
  no_closing : ∀ u, group u → closing ∉ u

namespace Brackets
variable (k : Brackets α)

def enclosed (u : List α) : List α := k.opening :: u ++ [k.closing]

/-- A group at the front. -/
def Leads (l : List α) : Prop := ∃ u rest, k.group u ∧ l = k.enclosed u ++ rest

/-- No group ends after the first `n` entries. -/
def Within (l : List α) (n : ℕ) : Prop :=
  ∀ p u q, k.group u → l = p ++ k.enclosed u ++ q → (p ++ k.enclosed u).length ≤ n

/-- Two texts with a common front, after which the second has less left than `y`: what the first
has there ends no group, and begins one unless the second misses two entries at least. -/
def Short (y s t : List α) : Prop :=
  ∃ z v y', s = z ++ v ∧ t = z ++ y' ∧ k.closing ∉ v ∧ y'.length < y.length ∧
    (k.opening ∈ v ∨ y'.length + 2 ≤ y.length)

/-- `f` strikes out the groups, from left to right. -/
structure StruckBy (f : List α → List α) : Prop where
  nil : f [] = []
  group : ∀ u rest, k.group u → f (k.enclosed u ++ rest) = f rest
  other : ∀ a l, ¬k.Leads (a :: l) → f (a :: l) = a :: f l

end Brackets

variable {k : Brackets α} {f : List α → List α} {a : α} {l u v x y rest : List α} {n : ℕ}

section Groups

theorem length_enclosed (u : List α) : (k.enclosed u).length = u.length + 2 := by
  simp [Brackets.enclosed]

theorem leads_append (y : List α) (h : k.Leads l) : k.Leads (l ++ y) := by
  obtain ⟨u, rest, hu, rfl⟩ := h
  exact ⟨u, rest ++ y, hu, List.append_assoc ..⟩

theorem append_closing_inj {c : α} {u' rest' : List α} (hu : c ∉ u) (hu' : c ∉ u')
    (h : u ++ c :: rest = u' ++ c :: rest') : u = u' ∧ rest = rest' := by
  rcases List.append_eq_append_iff.mp h with ⟨v, rfl, hv⟩ | ⟨v, rfl, hv⟩
  · cases v with
    | nil => exact ⟨(List.append_nil u).symm, (List.cons.inj hv).2⟩
    | cons b v => exact absurd (by simp [(List.cons.inj hv).1]) hu'
  · cases v with
    | nil => exact ⟨List.append_nil u', (List.cons.inj hv).2.symm⟩
    | cons b v => exact absurd (by simp [(List.cons.inj hv).1]) hu

/-- Two groups at the front are one. -/
theorem enclosed_inj {u' rest' : List α} (hu : k.group u) (hu' : k.group u')
    (h : k.enclosed u ++ rest = k.enclosed u' ++ rest') : u = u' ∧ rest = rest' := by
  simp only [Brackets.enclosed, List.cons_append, List.append_assoc, List.nil_append,
    List.cons.injEq, true_and] at h
  exact append_closing_inj (k.no_closing u hu) (k.no_closing u' hu') h

/-- A later group begins after the one at the front. -/
theorem group_after {p u' q : List α} (hu : k.group u) (hu' : k.group u')
    (h : k.enclosed u ++ rest = p ++ k.enclosed u' ++ q) :
    p = [] ∧ u = u' ∨ ∃ p', p = k.enclosed u ++ p' ∧ rest = p' ++ k.enclosed u' ++ q := by
  rw [List.append_assoc] at h
  rcases List.append_eq_append_iff.mp h with ⟨p', rfl, hrest⟩ | ⟨v, hv, hrest⟩
  · exact .inr ⟨p', rfl, by rw [hrest, List.append_assoc]⟩
  · cases p with
    | nil => exact .inl ⟨rfl, (enclosed_inj hu hu' h).1⟩
    | cons b p =>
      rcases v with _ | ⟨d, v⟩
      · exact .inr ⟨[], by simpa using hv.symm, by rw [List.append_assoc]; exact hrest.symm⟩
      · -- the opening bracket would stand inside the first group
        exfalso
        have hd : d = k.opening := (List.cons.inj hrest).1.symm
        subst hd
        simp only [Brackets.enclosed, List.cons_append, List.cons.injEq] at hv
        have hmem : k.opening ∈ u ++ [k.closing] := hv.2 ▸ by simp
        rcases List.mem_append.mp hmem with hmem | hmem
        · exact k.no_opening u hu hmem
        · exact k.ne (List.mem_singleton.mp hmem)

theorem within_group (hu : k.group u) :
    k.Within (k.enclosed u ++ l) ((k.enclosed u).length + n) ↔ k.Within l n := by
  constructor
  · intro h p u' q hu' hl
    have := h (k.enclosed u ++ p) u' q hu' (by rw [hl]; simp only [List.append_assoc])
    simp only [List.length_append] at this ⊢
    omega
  · intro h p u' q hu' hl
    rcases group_after hu hu' hl with ⟨rfl, rfl⟩ | ⟨p', rfl, hrest⟩
    · simp
    · have := h p' u' q hu' hrest
      simp only [List.length_append] at this ⊢
      omega

theorem within_other (h : ¬k.Leads (a :: l)) : k.Within (a :: l) (n + 1) ↔ k.Within l n := by
  constructor
  · intro hw p u q hu hl
    have := hw (a :: p) u q hu (by rw [hl]; rfl)
    simpa using this
  · intro hw p u q hu hl
    cases p with
    | nil => exact absurd ⟨u, q, hu, hl⟩ h
    | cons b p =>
      have := hw p u q hu (List.cons.inj hl).2
      simpa using this

theorem within_mono {m : ℕ} (h : k.Within l n) (hnm : n ≤ m) : k.Within l m :=
  fun p u q hu hl => (h p u q hu hl).trans hnm

theorem not_leads (h : k.Within l 0) : ¬k.Leads l := by
  rintro ⟨u, rest, hu, hl⟩
  have := h [] u rest hu hl
  simp [length_enclosed] at this

theorem within_of_no_closing (h : k.closing ∉ y) : k.Within (x ++ y) x.length := by
  intro p u q hu hl
  by_contra hlt
  rcases List.append_eq_append_iff.mp hl with ⟨v, hv, hy⟩ | ⟨v, rfl, hy⟩
  · rcases List.eq_nil_or_concat' v with rfl | ⟨v, b, rfl⟩
    · rw [List.append_nil] at hv
      rw [hv] at hlt
      exact hlt le_rfl
    · have hb := congrArg List.getLast? hv
      rw [Brackets.enclosed, ← List.append_assoc, ← List.append_assoc, List.getLast?_concat,
        List.getLast?_concat] at hb
      exact h (by rw [hy, Option.some_inj.mp hb]; simp)
  · simp only [List.length_append] at hlt
    omega

end Groups

section Induction

/-- The walk through `x`, with `y` behind it. -/
theorem walk_induction {P : List α → Prop} (y : List α) (nil : P [])
    (group : ∀ u x, k.group u → P x → P (k.enclosed u ++ x))
    (crossing : ∀ u₁ u₂ rest, k.group (u₁ ++ u₂) → y = u₂ ++ k.closing :: rest →
      P (k.opening :: u₁))
    (other : ∀ a x, ¬k.Leads (a :: (x ++ y)) → P x → P (a :: x)) (x : List α) : P x := by
  induction hx : x.length using Nat.strong_induction_on generalizing x with
  | _ n ih =>
    subst hx
    cases x with
    | nil => exact nil
    | cons a x =>
      by_cases hlead : k.Leads (a :: (x ++ y))
      · obtain ⟨u, rest, hu, hsplit⟩ := hlead
        rw [← List.cons_append] at hsplit
        rcases List.append_eq_append_iff.mp hsplit with ⟨v, hv, hy⟩ | ⟨v, hv, hy⟩
        · rw [Brackets.enclosed, List.cons_append, List.cons_append] at hv
          obtain ⟨rfl, hv⟩ := List.cons.inj hv
          rcases List.eq_nil_or_concat' v with rfl | ⟨v, b, rfl⟩
          · rw [List.append_nil] at hv
            have hx := group u [] hu nil
            rwa [List.append_nil, Brackets.enclosed, List.cons_append, hv] at hx
          · rw [← List.append_assoc] at hv
            obtain ⟨rfl, hb⟩ := List.append_inj' (List.cons.inj hv).2 rfl
            obtain rfl := List.singleton_inj.mp hb
            exact crossing x v rest hu (by rw [hy, List.append_assoc]; rfl)
        · rw [hv]
          refine group u v hu (ih _ ?_ v rfl)
          rw [hv, List.length_append, length_enclosed]
          omega
      · exact other a x hlead (ih _ (Nat.lt_succ_self _) x rfl)

end Induction

section Struck

variable (hf : k.StruckBy f)

include hf

theorem struck_of_no_group (h : k.Within l 0) : f l = l := by
  induction l with
  | nil => exact hf.nil
  | cons a l ih =>
    have hlead : ¬k.Leads (a :: l) := not_leads h
    rw [hf.other a l hlead, ih ((within_other hlead).mp (within_mono h (Nat.zero_le 1)))]

/-- What is behind the last group stays as it is. -/
theorem struck_append (h : k.Within (x ++ y) x.length) : f (x ++ y) = f x ++ y := by
  induction x using walk_induction (k := k) y with
  | nil =>
    rw [hf.nil]
    exact struck_of_no_group hf h
  | group u x hu ih =>
    rw [List.append_assoc, List.length_append, within_group hu] at h
    rw [List.append_assoc, hf.group u _ hu, hf.group u _ hu, ih h]
  | crossing u₁ u₂ rest hu hy =>
    have := h [] (u₁ ++ u₂) rest hu (by rw [hy]; simp [Brackets.enclosed])
    simp [length_enclosed] at this
  | other a x hlead ih =>
    have hlead' : ¬k.Leads (a :: x) := fun h => hlead (leads_append y h)
    rw [List.cons_append, List.length_cons, within_other hlead] at h
    rw [List.cons_append, hf.other a _ hlead, hf.other a x hlead', ih h, List.cons_append]

theorem length_struck_le (l : List α) : (f l).length ≤ l.length := by
  induction l using walk_induction (k := k) [] with
  | nil => rw [hf.nil]
  | group u x hu ih =>
    rw [hf.group u x hu, List.length_append]
    omega
  | crossing u₁ u₂ rest hu hy => simp at hy
  | other a x hlead ih =>
    rw [List.append_nil] at hlead
    rw [hf.other a x hlead, List.length_cons, List.length_cons]
    omega

/-- A group takes at least its brackets with it. -/
theorem length_struck_lt (h : ¬k.Within l 0) : (f l).length + 2 ≤ l.length := by
  induction l using walk_induction (k := k) [] with
  | nil => exact absurd (fun p u q _ hl => by simp [Brackets.enclosed] at hl) h
  | group u x hu ih =>
    have := length_struck_le hf x
    rw [hf.group u x hu, List.length_append, length_enclosed]
    omega
  | crossing u₁ u₂ rest hu hy => simp at hy
  | other a x hlead ih =>
    rw [List.append_nil] at hlead
    have hx : ¬k.Within x 0 := by
      intro hx
      refine h fun p u q hu hl => ?_
      cases p with
      | nil => exact absurd ⟨u, q, hu, hl⟩ hlead
      | cons b p =>
        have := hx p u q hu (List.cons.inj hl).2
        simp [length_enclosed] at this
    have := ih hx
    rw [hf.other a x hlead, List.length_cons, List.length_cons]
    omega

/-- Where a group ends behind `x`, less is left of what is behind it. -/
theorem struck_short (h : ¬k.Within (x ++ y) x.length) : k.Short y (f x) (f (x ++ y)) := by
  induction x using walk_induction (k := k) y with
  | nil =>
    have := length_struck_lt hf h
    exact ⟨[], [], f y, by rw [hf.nil]; rfl, rfl, by simp, by simp at this; omega, .inr this⟩
  | group u x hu ih =>
    rw [List.append_assoc, List.length_append, within_group hu] at h
    rw [List.append_assoc, hf.group u _ hu, hf.group u _ hu]
    exact ih h
  | crossing u₁ u₂ rest hu hy =>
    have hclosing : k.closing ∉ k.opening :: u₁ := by
      have := k.no_closing _ hu
      simp only [List.mem_append, not_or] at this
      simp [this.1, k.ne.symm]
    have hgroup : k.opening :: u₁ ++ y = k.enclosed (u₁ ++ u₂) ++ rest := by
      rw [hy]
      simp [Brackets.enclosed]
    have hle := length_struck_le hf rest
    refine ⟨[], _, f rest, struck_of_no_group hf (within_of_no_closing (x := []) hclosing), ?_,
      hclosing, ?_, .inl (by simp)⟩
    · rw [hgroup, hf.group _ _ hu]
      rfl
    · rw [hy, List.length_append, List.length_cons]
      omega
  | other a x hlead ih =>
    have hlead' : ¬k.Leads (a :: x) := fun h => hlead (leads_append y h)
    rw [List.cons_append, List.length_cons, within_other hlead] at h
    obtain ⟨z, v, y', hx, hxy, hrest⟩ := ih h
    exact ⟨a :: z, v, y', by rw [hf.other a x hlead', hx]; rfl,
      by rw [List.cons_append, hf.other a _ hlead, hxy]; rfl, hrest⟩

end Struck

section Stages

variable {k' : Brackets α} {s t : List α} (hf : k'.StruckBy f) (hclosing : k'.closing = k.closing)

include hf hclosing

/-- Striking out other groups of the same brackets leaves less again. -/
theorem Brackets.Short.struck (hopening : k'.opening = k.opening) (h : k.Short y s t) :
    k.Short y (f s) (f t) := by
  obtain ⟨z, v, y', rfl, rfl, hv, hlt, hend⟩ := h
  have hzv : f (z ++ v) = f z ++ v := struck_append hf (within_of_no_closing (hclosing ▸ hv))
  by_cases hw : k'.Within (z ++ y') z.length
  · exact ⟨f z, v, y', hzv, struck_append hf hw, hv, hlt, hend⟩
  · obtain ⟨z', v', y'', hz, hzy, hv', hlt', hend'⟩ := struck_short hf hw
    refine ⟨z', v' ++ v, y'', by rw [hzv, hz, List.append_assoc], hzy, ?_, by omega, ?_⟩
    · rw [List.mem_append, not_or]
      exact ⟨hclosing ▸ hv', hv⟩
    · rcases hend' with hmem | hle
      · exact .inl (List.mem_append_left v (hopening ▸ hmem))
      · exact .inr (by omega)

/-- What ends behind `x` ends behind what is left of `x` too. -/
theorem within_of_struck (h : k.Within (f x ++ y) (f x).length) : k.Within (x ++ y) x.length := by
  intro p u q hu hl
  by_contra hlt
  rw [List.append_assoc] at hl
  rcases List.append_eq_append_iff.mp hl with ⟨v, rfl, hv⟩ | ⟨v, rfl, hv⟩
  · have := h (f x ++ v) u q hu (by rw [hv, List.append_assoc, List.append_assoc])
    simp [length_enclosed] at this
  · cases v with
    | nil =>
      rw [List.append_nil] at h
      have := h (f p) u q hu (by rw [List.append_assoc, hv]; rfl)
      simp [length_enclosed] at this
    | cons a u₁ =>
      -- the group begins in `x`, and no other group reaches from there to the end of `x`
      simp only [Brackets.enclosed, List.cons_append, List.append_assoc, List.nil_append,
        List.cons.injEq, List.length_append, List.length_cons, List.length_nil] at hv hlt
      obtain ⟨rfl, hv⟩ := hv
      obtain ⟨u₂, rfl, rfl⟩ : ∃ u₂, u = u₁ ++ u₂ ∧ y = u₂ ++ k.closing :: q := by
        rcases List.append_eq_append_iff.mp hv with ⟨w, rfl, hw⟩ | ⟨u₂, rfl, hy⟩
        · have hnil : w = [] := List.length_eq_zero_iff.mp (by rw [List.length_append] at hlt; omega)
          subst hnil
          exact ⟨[], by simp, hw.symm⟩
        · exact ⟨u₂, rfl, hy⟩
      have hu₁ : k'.closing ∉ k.opening :: u₁ := by
        have := k.no_closing _ hu
        simp only [List.mem_append, not_or] at this
        simp [hclosing, this.1, k.ne.symm]
      have hp : f (p ++ k.opening :: u₁) = f p ++ k.opening :: u₁ :=
        struck_append hf (within_of_no_closing hu₁)
      rw [hp] at h
      have := h (f p) (u₁ ++ u₂) q hu (by simp [Brackets.enclosed])
      simp only [List.length_append, length_enclosed, List.length_cons] at this
      omega

end Stages
end DearSql.Strikes
