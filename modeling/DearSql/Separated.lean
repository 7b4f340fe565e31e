import Mathlib

/-! Lists cut at a separator, and the elements at their ends that count for nothing. -/
namespace DearSql

variable {α : Type*}

section Cut

variable [BEq α] [LawfulBEq α]

/-- No part between the separators holds one. -/
theorem not_mem_of_splitOn {c : α} {s seg : List α} (h : seg ∈ s.splitOn c) : c ∉ seg := by
  induction s generalizing seg with
  | nil =>
    rw [List.splitOn_nil, List.mem_singleton] at h
    simp [h]
  | cons d s ih =>
    rw [List.splitOn_cons_eq_if_modifyHead] at h
    split_ifs at h with hd
    · rcases List.mem_cons.mp h with rfl | h
      · simp
      · exact ih h
    · obtain ⟨x, xs, hxs⟩ := List.exists_cons_of_ne_nil (List.splitOn_ne_nil c s)
      rw [hxs, List.modifyHead_cons] at h
      rcases List.mem_cons.mp h with rfl | h
      · have hx : c ∉ x := ih (by simp [hxs])
        have hdc : d ≠ c := by simpa using hd
        simp [hx, hdc.symm]
      · exact ih (by simp [hxs, h])

end Cut

namespace Separated

/-- A separator and what stands behind it, as the beginning of every part but the first. -/
theorem intercalate_behind (c b : α) (x : List α) (xs : List (List α)) :
    [c, b].intercalate (x :: xs) = [c].intercalate (x :: xs.map (b :: ·)) := by
  induction xs generalizing x with
  | nil => simp
  | cons y ys ih =>
    rw [List.intercalate_cons_cons, ih, List.map_cons, List.intercalate_cons_cons]
    cases ys with
    | nil => simp
    | cons z zs => simp [List.intercalate_cons_cons]

/-- Without what counts for nothing at either end. -/
def trimEnds (p : α → Bool) (l : List α) : List α := (l.dropWhile p).rdropWhile p

variable {p : α → Bool} {l : List α} {a b : α}

theorem trimEnds_sublist : (trimEnds p l).Sublist l :=
  (List.rdropWhile_prefix p _).sublist.trans (List.dropWhile_suffix p).sublist

theorem dropWhile_eq_self (h : ∀ c ∈ l.head?, p c = false) : l.dropWhile p = l := by
  cases l with
  | nil => rfl
  | cons c l => exact List.dropWhile_cons_of_neg (by simp [h c rfl])

theorem trimEnds_eq_self : trimEnds p l = l ↔
    (∀ c ∈ l.head?, p c = false) ∧ ∀ c ∈ l.getLast?, p c = false := by
  constructor
  · intro h
    have hlength := congrArg List.length h
    have hfront := (List.dropWhile_suffix p (l := l)).length_le
    have hback := (List.rdropWhile_prefix p (l.dropWhile p)).length_le
    have hdrop : l.dropWhile p = l := (List.dropWhile_suffix p).eq_of_length_le (by
      rw [trimEnds] at hlength
      omega)
    have hrdrop : l.rdropWhile p = l := by rwa [trimEnds, hdrop] at h
    refine ⟨fun c hc => ?_, fun c hc => ?_⟩
    · have hnot := List.head?_dropWhile_not p l
      rw [hdrop, Option.mem_def.mp hc] at hnot
      simpa using hnot
    · obtain ⟨hne, rfl⟩ := List.mem_getLast?_eq_getLast hc
      simpa using List.rdropWhile_eq_self_iff.mp hrdrop hne
  · rintro ⟨hhead, hlast⟩
    rw [trimEnds, dropWhile_eq_self hhead, List.rdropWhile_eq_self_iff]
    intro hne
    simpa using hlast _ (List.getLast_mem_getLast? hne)

theorem trimEnds_trimEnds : trimEnds p (trimEnds p l) = trimEnds p l := by
  have hhead : ∀ c ∈ (trimEnds p l).head?, p c = false := by
    intro c hc
    have hmem : c ∈ (l.dropWhile p).head? := by
      obtain ⟨t, ht⟩ := List.rdropWhile_prefix p (l.dropWhile p)
      rw [← ht]
      exact List.mem_head?_append_of_mem_head? hc
    have hnot := List.head?_dropWhile_not p l
    rw [Option.mem_def.mp hmem] at hnot
    simpa using hnot
  rw [trimEnds, dropWhile_eq_self hhead, trimEnds, List.rdropWhile_idempotent]

theorem trimEnds_cons (ha : p a = true) : trimEnds p (a :: l) = trimEnds p l := by
  rw [trimEnds, List.dropWhile_cons_of_pos ha]
  rfl

/-- Without the marks at its ends, where it has both. -/
def unwrap [DecidableEq α] (a b : α) (l : List α) : List α :=
  if 2 ≤ l.length ∧ l.head? = some a ∧ l.getLast? = some b then (l.drop 1).dropLast else l

variable [DecidableEq α]

theorem unwrap_wrap (a b : α) (l : List α) : unwrap a b (a :: l ++ [b]) = l := by
  rw [unwrap, if_pos ⟨by simp, rfl, by rw [List.getLast?_append]; rfl⟩]
  simp

theorem unwrap_sublist : (unwrap a b l).Sublist l := by
  unfold unwrap
  split
  · exact (List.dropLast_sublist _).trans (List.drop_sublist 1 l)
  · exact List.Sublist.refl l

end Separated

end DearSql
