import Mathlib

/-! Grouping by a key that keeps the order: what has a key joins the group of that key, what has
none is a group of its own. -/
namespace DearSql.StableGroups

variable {α κ : Type*} [DecidableEq κ] (key : α → Option κ)

section Definitions

/-- The first group of the key of `a` takes `a`. -/
def push (a : α) : List (Option κ × List α) → List (Option κ × List α)
  | [] => [(key a, [a])]
  | g :: gs => if (key a).isSome ∧ g.1 = key a then (g.1, g.2 ++ [a]) :: gs else g :: push a gs

def collect (l : List α) : List (Option κ × List α) := l.foldl (fun gs a => push key a gs) []

/-- What has no key, and the first of every key that is not in `seen`. -/
def firstsFrom (seen : List (Option κ)) : List α → List α
  | [] => []
  | a :: as =>
    if (key a).isSome ∧ key a ∈ seen then firstsFrom seen as
    else a :: firstsFrom (key a :: seen) as

def firsts (l : List α) : List α := firstsFrom key [] l

/-- What of `l` stands in the group of `a`. -/
def members (l : List α) (a : α) : List α :=
  if key a = none then [a] else l.filter fun x => key x = key a

end Definitions

section Firsts

variable {key} {a : α} {l as bs : List α} {seen seen' : List (Option κ)}

theorem firstsFrom_congr (h : ∀ k, some k ∈ seen ↔ some k ∈ seen') :
    firstsFrom key seen as = firstsFrom key seen' as := by
  induction as generalizing seen seen' with
  | nil => rfl
  | cons a as ih =>
    have hhead : ((key a).isSome ∧ key a ∈ seen) ↔ ((key a).isSome ∧ key a ∈ seen') := by
      cases key a with
      | none => simp
      | some k => simp [h k]
    have htail : ∀ k, some k ∈ key a :: seen ↔ some k ∈ key a :: seen' := fun k => by
      simp [h k]
    simp only [firstsFrom, hhead, ih h, ih htail]

theorem firstsFrom_append (seen : List (Option κ)) (as bs : List α) :
    firstsFrom key seen (as ++ bs) =
      firstsFrom key seen as ++ firstsFrom key (as.map key ++ seen) bs := by
  induction as generalizing seen with
  | nil => rfl
  | cons a as ih =>
    rw [List.cons_append, firstsFrom, firstsFrom]
    split_ifs with h
    · rw [ih]
      congr 1
      refine firstsFrom_congr fun k => ?_
      simp only [List.map_cons, List.cons_append, List.mem_append, List.mem_cons]
      exact ⟨fun hk => .inr hk, fun hk => hk.elim (fun hk => .inr (hk ▸ h.2)) id⟩
    · rw [ih, List.cons_append]
      congr 2
      refine firstsFrom_congr fun k => ?_
      simp only [List.map_cons, List.cons_append, List.mem_append, List.mem_cons]
      tauto

theorem firsts_append_singleton (l : List α) (a : α) : firsts key (l ++ [a]) =
    firsts key l ++ if (key a).isSome ∧ key a ∈ l.map key then [] else [a] := by
  rw [firsts, firstsFrom_append, List.append_nil, firstsFrom]
  rfl

/-- The keys of the firsts are distinct. -/
theorem nodup_firstsFrom (seen : List (Option κ)) (l : List α) :
    ((firstsFrom key seen l).filterMap key).Nodup ∧
      ∀ k ∈ (firstsFrom key seen l).filterMap key, some k ∉ seen := by
  induction l generalizing seen with
  | nil => exact ⟨List.nodup_nil, by simp [firstsFrom]⟩
  | cons a l ih =>
    rw [firstsFrom]
    split_ifs with h
    · exact ih seen
    · obtain ⟨hnodup, hseen⟩ := ih (key a :: seen)
      cases hk : key a with
      | none =>
        rw [List.filterMap_cons_none hk]
        rw [hk] at hnodup hseen
        exact ⟨hnodup, fun k hmem hin => hseen k hmem (List.mem_cons_of_mem _ hin)⟩
      | some k =>
        rw [List.filterMap_cons_some hk]
        rw [hk] at hnodup hseen h
        refine ⟨List.nodup_cons.mpr ⟨fun hin => hseen k hin List.mem_cons_self, hnodup⟩, ?_⟩
        refine List.forall_mem_cons.mpr ⟨by simpa using h, ?_⟩
        exact fun k hmem hin => hseen k hmem (List.mem_cons_of_mem _ hin)

/-- Every key of the list is the key of one of the firsts. -/
theorem mem_keys_firsts {k : κ} : k ∈ (firsts key l).filterMap key ↔ k ∈ l.filterMap key := by
  induction l using List.reverseRecOn with
  | nil => rfl
  | append_singleton l a ih =>
    rw [firsts_append_singleton, List.filterMap_append, List.filterMap_append, List.mem_append,
      List.mem_append, ih]
    split_ifs with h
    · simp only [List.filterMap_nil, List.not_mem_nil, or_false]
      refine ⟨.inl, fun hk => hk.elim id fun hk => ?_⟩
      simp only [List.filterMap_cons, List.filterMap_nil] at hk
      cases ha : key a with
      | none => simp [ha] at hk
      | some k' =>
        simp only [ha, List.mem_singleton] at hk
        obtain ⟨x, hx, hxk⟩ := List.mem_map.mp h.2
        exact List.mem_filterMap.mpr ⟨x, hx, by rw [hxk, ha, hk]⟩
    · rfl

/-- What has no key is first. -/
theorem filter_firsts_none :
    (firsts key l).filter (fun a => key a = none) = l.filter fun a => key a = none := by
  induction l using List.reverseRecOn with
  | nil => rfl
  | append_singleton l a ih =>
    rw [firsts_append_singleton, List.filter_append, List.filter_append, ih]
    split_ifs with h
    · have : key a ≠ none := fun hn => by simp [hn] at h
      simp [this]
    · rfl

end Firsts

section Collect

variable {key} {a : α} {l : List α} {gs : List (Option κ × List α)}

theorem collect_append_singleton (l : List α) (a : α) :
    collect key (l ++ [a]) = push key a (collect key l) := by
  rw [collect, List.foldl_append]
  rfl

theorem push_new (h : ∀ g ∈ gs, ¬((key a).isSome ∧ g.1 = key a)) :
    push key a gs = gs ++ [(key a, [a])] := by
  induction gs with
  | nil => rfl
  | cons g gs ih =>
    obtain ⟨hg, hgs⟩ := List.forall_mem_cons.mp h
    rw [push, if_neg hg, ih hgs, List.cons_append]

theorem push_known {k : κ} (ha : key a = some k) (hk : k ∈ gs.filterMap Prod.fst)
    (hnodup : (gs.filterMap Prod.fst).Nodup) :
    push key a gs = gs.map fun g => if g.1 = some k then (g.1, g.2 ++ [a]) else g := by
  induction gs with
  | nil => simp at hk
  | cons g gs ih =>
    rw [push, ha, List.map_cons]
    by_cases hg : g.1 = some k
    · rw [if_pos ⟨rfl, hg⟩, if_pos hg]
      rw [List.filterMap_cons_some hg] at hnodup
      have hrest : ∀ g' ∈ gs, g'.1 ≠ some k := fun g' hg' hk' =>
        (List.nodup_cons.mp hnodup).1 (List.mem_filterMap.mpr ⟨g', hg', hk'⟩)
      rw [List.map_congr_left fun g' hg' => if_neg (hrest g' hg'), List.map_id']
    · rw [if_neg fun h => hg h.2, if_neg hg]
      rw [List.filterMap_cons] at hk hnodup
      have htail : k ∈ gs.filterMap Prod.fst ∧ (gs.filterMap Prod.fst).Nodup := by
        cases hfst : g.1 with
        | none =>
          simp only [hfst] at hk hnodup
          exact ⟨hk, hnodup⟩
        | some k' =>
          simp only [hfst] at hk hnodup hg
          exact ⟨(List.mem_cons.mp hk).resolve_left fun h => hg (h ▸ rfl),
            (List.nodup_cons.mp hnodup).2⟩
      rw [ih htail.1 htail.2]

/-- Each entry is in one group, at one place. -/
theorem push_perm (a : α) (gs : List (Option κ × List α)) :
    ((push key a gs).flatMap Prod.snd).Perm (gs.flatMap Prod.snd ++ [a]) := by
  induction gs with
  | nil => simp [push]
  | cons g gs ih =>
    rw [push]
    split_ifs
    · simp only [List.flatMap_cons, List.append_assoc]
      exact List.perm_append_comm.append_left _
    · simp only [List.flatMap_cons, List.append_assoc]
      exact ih.append_left _

theorem collect_perm (l : List α) : ((collect key l).flatMap Prod.snd).Perm l := by
  induction l using List.reverseRecOn with
  | nil => exact .refl _
  | append_singleton l a ih =>
    rw [collect_append_singleton]
    exact (push_perm a _).trans (ih.append_right _)

theorem members_append_singleton (l : List α) (a x : α) : members key (l ++ [a]) x =
    if (key a).isSome ∧ key x = key a then members key l x ++ [a] else members key l x := by
  cases ha : key a with
  | none =>
    rw [if_neg (by simp), members, members]
    split_ifs with hx
    · rfl
    · simp [List.filter_append, ha, eq_comm, hx]
  | some k =>
    simp only [Option.isSome_some, true_and, members]
    by_cases hx : key x = some k
    · simp [hx, ha, List.filter_append]
    · have hne : ¬key a = key x := fun h => hx (h ▸ ha)
      simp [hx, hne, List.filter_append]

theorem members_new (h : ¬((key a).isSome ∧ key a ∈ l.map key)) : members key (l ++ [a]) a = [a] := by
  rw [members]
  split_ifs with hn
  · rfl
  · have hout : ∀ x ∈ l, ¬key x = key a := fun x hx hxa =>
      h ⟨Option.isSome_iff_ne_none.mpr hn, hxa ▸ List.mem_map_of_mem hx⟩
    rw [List.filter_append, List.filter_eq_nil_iff.mpr (by simpa using hout)]
    simp

/-- A group begins with the first of its key. -/
theorem head_members (ha : a ∈ firsts key l) : (members key l a).head? = some a := by
  induction l using List.reverseRecOn with
  | nil => simp [firsts, firstsFrom] at ha
  | append_singleton l x ih =>
    rw [firsts_append_singleton, List.mem_append] at ha
    rcases ha with ha | ha
    · rw [members_append_singleton]
      split_ifs
      · rw [List.head?_append, ih ha, Option.some_or]
      · exact ih ha
    · split_ifs at ha with h
      · simp at ha
      · obtain rfl := List.mem_singleton.mp ha
        rw [members_new h, List.head?_singleton]

/-- One group for each of the firsts, in their order, with what belongs to it in the order of the
list. -/
theorem collect_eq (l : List α) :
    collect key l = (firsts key l).map fun a => (key a, members key l a) := by
  induction l using List.reverseRecOn with
  | nil => rfl
  | append_singleton l a ih =>
    have hkeys : ((firsts key l).map fun a => (key a, members key l a)).filterMap Prod.fst =
        (firsts key l).filterMap key := by
      rw [List.filterMap_map]
      rfl
    rw [collect_append_singleton, ih, firsts_append_singleton]
    by_cases h : (key a).isSome ∧ key a ∈ l.map key
    · obtain ⟨k, ha⟩ := Option.isSome_iff_exists.mp h.1
      have hk : k ∈ (firsts key l).filterMap key := by
        obtain ⟨x, hx, hxk⟩ := List.mem_map.mp h.2
        exact mem_keys_firsts.mpr (List.mem_filterMap.mpr ⟨x, hx, hxk.trans ha⟩)
      rw [push_known ha (hkeys ▸ hk) (hkeys ▸ (nodup_firstsFrom [] l).1), if_pos h, List.append_nil,
        List.map_map]
      refine List.map_congr_left fun x _ => ?_
      simp only [Function.comp, members_append_singleton, ha, Option.isSome_some, true_and]
      split_ifs <;> rfl
    · have hnew : ∀ x ∈ firsts key l, ¬((key a).isSome ∧ key x = key a) := by
        rintro x hx ⟨hsome, hxa⟩
        obtain ⟨k, ha⟩ := Option.isSome_iff_exists.mp hsome
        have hk : k ∈ l.filterMap key :=
          mem_keys_firsts.mp (List.mem_filterMap.mpr ⟨x, hx, hxa.trans ha⟩)
        obtain ⟨y, hy, hyk⟩ := List.mem_filterMap.mp hk
        exact h ⟨hsome, List.mem_map.mpr ⟨y, hy, hyk.trans ha.symm⟩⟩
      rw [push_new (by simpa using hnew), if_neg h, List.map_append, List.map_singleton,
        members_new h]
      congr 1
      refine List.map_congr_left fun x hx => ?_
      rw [members_append_singleton, if_neg (hnew x hx)]

end Collect
end DearSql.StableGroups
