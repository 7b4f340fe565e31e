import DearSql.Complete

/-! The groups of a statement are well nested: every index the analyzer keeps is an index of the
list it points into. -/
namespace DearSql
open Lexing Loops

/-- A group of `groups` at `g` among tokens up to `size`. -/
structure Group.Fits (size g : ℤ) (x : Group) : Prop where
  parent_ge : -1 ≤ x.parent
  parent_lt : x.parent < g
  openAt_ge : -1 ≤ x.openAt
  open_lt : x.openAt < x.closeAt
  close_le : x.closeAt ≤ size

/-- The tables of a statement agree with each other. -/
structure Tables (size : ℤ) (groups : List Group) (groupOf_ opens_ : List ℤ) : Prop where
  lengthOf : (groupOf_.length : ℤ) = size
  lengthOpens : (opens_.length : ℤ) = size
  fits : ∀ g x, at? groups g = some x → x.Fits size g
  groupOf_mem : ∀ i g, at? groupOf_ i = some g → 0 ≤ g ∧ g < groups.length
  opens_mem : ∀ i g, at? opens_ i = some g →
    -1 ≤ g ∧ g < groups.length ∧ (0 ≤ g → ∃ x, at? groups g = some x ∧ x.openAt = i)

/-- The state of `buildGroups` before token `k`. -/
structure Built (toks : List Sym) (k : ℤ) (s : Building) : Prop extends
    Tables toks.length s.groups s.groupOf_ s.opens_ where
  stack_ne : s.stack ≠ []
  stack_mem : ∀ g ∈ s.stack, 0 ≤ g ∧ g < s.groups.length
  opened_lt : ∀ g x, at? s.groups g = some x → x.openAt < k
  opened : ∀ i, i < k → isPunct toks i '(' → Yields (at? s.opens_ i) fun g => 0 ≤ g

section Lists

variable {α : Type*} {l : List α} {i j : ℤ} {a x : α}

theorem at?_set (hi : 0 ≤ i) : at? (l.set i.toNat a) j = some x ↔
    (i = j ∧ j < l.length ∧ a = x) ∨ (i ≠ j ∧ at? l j = some x) := by
  rw [at?_eq_some, at?_eq_some, List.getElem?_set]
  by_cases h : i = j
  · subst h
    by_cases hl : i.toNat < l.length
    · have : i < l.length := by omega
      simp [hl, this, hi]
    · have : ¬ i < l.length := by omega
      simp [hl, this]
  · by_cases hj : 0 ≤ j
    · have : i.toNat ≠ j.toNat := by omega
      simp [h, this]
    · simp [h, hj]

theorem at?_snoc : at? (l ++ [a]) j = some x ↔
    at? l j = some x ∨ (j = l.length ∧ a = x) := by
  rw [at?_eq_some, at?_eq_some]
  by_cases hj : 0 ≤ j
  · simp only [hj, true_and]
    rcases lt_trichotomy j l.length with h | h | h
    · rw [List.getElem?_append_left (by omega)]
      have : j ≠ l.length := by omega
      simp [this]
    · subst h
      simp
    · rw [List.getElem?_append_right (by omega)]
      have h1 : j ≠ l.length := by omega
      have h2 : j.toNat - l.length ≠ 0 := by omega
      have h3 : l[j.toNat]? = none := List.getElem?_eq_none (by omega)
      simp [h1, h2, h3]
  · have : j ≠ l.length := by omega
    simp [hj, this]

end Lists

section Steps

variable {toks : List Sym} {k : ℤ} {s : Building}

theorem Built.init (toks : List Sym) : Built toks 0
    { groups := [⟨-1, -1, toks.length⟩], groupOf_ := List.replicate toks.length 0
      opens_ := List.replicate toks.length (-1), stack := [0] } := by
  have hroot : ∀ g x, at? [(⟨-1, -1, toks.length⟩ : Group)] g = some x →
      g = 0 ∧ x = ⟨-1, -1, toks.length⟩ := fun g x h => by
    obtain ⟨h0, h1, -⟩ := at?_bounds h
    obtain rfl : g = 0 := by simp at h1; omega
    simp [at?] at h
    exact ⟨rfl, h.symm⟩
  refine { lengthOf := by simp, lengthOpens := by simp, fits := fun g x h => ?_,
           groupOf_mem := fun i g h => ?_, opens_mem := fun i g h => ?_, stack_ne := by simp,
           stack_mem := by simp, opened_lt := fun g x h => ?_, opened := fun i hi h => ?_ }
  · obtain ⟨rfl, rfl⟩ := hroot g x h
    exact ⟨by simp, by simp, by simp, by simp; omega, by simp⟩
  · have := List.eq_of_mem_replicate (at?_bounds h).2.2
    simp [this]
  · have := List.eq_of_mem_replicate (at?_bounds h).2.2
    subst this
    exact ⟨le_rfl, by simp, by omega⟩
  · obtain ⟨-, rfl⟩ := hroot g x h
    simp
  · rw [isPunct, decide_eq_true_eq, at?_neg hi] at h
    cases h

/-- The tables read the same after a write to `groupOf_`. -/
theorem Tables.setOf {size g i : ℤ} {groups : List Group} {groupOf_ opens_ : List ℤ}
    (h : Tables size groups groupOf_ opens_) (hi : 0 ≤ i) (hg : 0 ≤ g ∧ g < groups.length) :
    Tables size groups (groupOf_.set i.toNat g) opens_ :=
  { h with
    lengthOf := by rw [List.length_set, h.lengthOf]
    groupOf_mem := fun j g' hj => by
      rcases (at?_set hi).mp hj with ⟨-, -, rfl⟩ | ⟨-, hj⟩
      · exact hg
      · exact h.groupOf_mem j g' hj }

theorem Built.mark (h : Built toks k s) (hk0 : 0 ≤ k) (hk : k < toks.length) :
    Yields (s.mark k) fun s' => Built toks k s' ∧ s'.stack = s.stack ∧ s'.groups = s.groups := by
  obtain ⟨top, rest, hst⟩ := List.exists_cons_of_ne_nil h.stack_ne
  have htop := h.stack_mem top (by simp [hst])
  refine ⟨{ s with groupOf_ := s.groupOf_.set k.toNat top }, ?_, ?_, rfl, rfl⟩
  · simp [Building.mark, hst, put?, hk0, h.lengthOf, hk]
  · exact { h.toTables.setOf hk0 htop with
            stack_ne := h.stack_ne, stack_mem := h.stack_mem, opened_lt := h.opened_lt
            opened := h.opened }

theorem Built.push (h : Built toks k s) (hk0 : 0 ≤ k) (hk : k < toks.length) :
    Yields (s.push k toks.length) (Built toks (k + 1)) := by
  obtain ⟨s', hs', h', hstack, hgroups⟩ := h.mark hk0 hk
  obtain ⟨top, rest, hst⟩ := List.exists_cons_of_ne_nil h'.stack_ne
  have htop := h'.stack_mem top (by simp [hst])
  refine ⟨{ s' with groups := s'.groups ++ [⟨top, k, toks.length⟩]
                    opens_ := s'.opens_.set k.toNat s'.groups.length
                    stack := s'.groups.length :: s'.stack }, ?_, ?_⟩
  · simp [Building.push, hs', hst, put?, hk0, h'.lengthOpens, hk]
  · have hold : ∀ g x, at? s'.groups g = some x →
        at? (s'.groups ++ [(⟨top, k, toks.length⟩ : Group)]) g = some x :=
      fun g x hg => at?_snoc.mpr (.inl hg)
    refine { lengthOf := h'.lengthOf, lengthOpens := by simp [h'.lengthOpens], fits := ?_,
             groupOf_mem := ?_, opens_mem := ?_, stack_ne := by simp, stack_mem := ?_,
             opened_lt := ?_, opened := ?_ }
    · intro g x hg
      rcases at?_snoc.mp hg with hg | ⟨rfl, rfl⟩
      · exact h'.fits g x hg
      · exact ⟨by simp; omega, htop.2, by simp; omega, hk, le_rfl⟩
    · intro i g hg
      have := h'.groupOf_mem i g hg
      exact ⟨this.1, by simp; omega⟩
    · intro i g hg
      rcases (at?_set hk0).mp hg with ⟨rfl, -, rfl⟩ | ⟨-, hg⟩
      · exact ⟨by omega, by simp, fun _ => ⟨_, at?_snoc.mpr (.inr ⟨rfl, rfl⟩), rfl⟩⟩
      · obtain ⟨h1, h2, h3⟩ := h'.opens_mem i g hg
        refine ⟨h1, by simp; omega, fun hg0 => ?_⟩
        obtain ⟨x, hx, hxo⟩ := h3 hg0
        exact ⟨x, hold g x hx, hxo⟩
    · intro g hg
      rcases List.mem_cons.mp hg with rfl | hg
      · simp
      · have := h'.stack_mem g hg
        exact ⟨this.1, by simp; omega⟩
    · intro g x hg
      rcases at?_snoc.mp hg with hg | ⟨-, rfl⟩
      · have := h'.opened_lt g x hg
        omega
      · simp
    · intro i hi hp
      rcases eq_or_ne i k with rfl | hne
      · exact ⟨s'.groups.length, (at?_set hk0).mpr (.inl ⟨rfl, by rw [h'.lengthOpens]; exact hk, rfl⟩),
          by omega⟩
      · obtain ⟨g, hg, hg0⟩ := h'.opened i (by omega) hp
        exact ⟨g, (at?_set hk0).mpr (.inr ⟨hne.symm, hg⟩), hg0⟩

theorem Built.pop (h : Built toks k s) (hk : k < toks.length) :
    Yields (s.pop k) (Built toks k) := by
  unfold Building.pop
  split_ifs with hlen
  · obtain ⟨top, rest, hst⟩ := List.exists_cons_of_ne_nil h.stack_ne
    obtain ⟨htop0, htop⟩ := h.stack_mem top (by simp [hst])
    obtain ⟨x, -, hx⟩ := at?_isSome htop0 htop
    refine ⟨{ s with groups := s.groups.set top.toNat { x with closeAt := k }
                     stack := rest }, ?_, ?_⟩
    · simp [hst, hx, put?, htop0, htop]
    have hread : ∀ g y, at? (s.groups.set top.toNat { x with closeAt := k }) g = some y →
        ∃ z, at? s.groups g = some z ∧ y.parent = z.parent ∧ y.openAt = z.openAt ∧
          (y.closeAt = z.closeAt ∨ y.closeAt = k) := by
      intro g y hg
      rcases (at?_set htop0).mp hg with ⟨rfl, -, rfl⟩ | ⟨-, hg⟩
      · exact ⟨x, hx, rfl, rfl, .inr rfl⟩
      · exact ⟨y, hg, rfl, rfl, .inl rfl⟩
    refine { lengthOf := h.lengthOf, lengthOpens := h.lengthOpens, fits := ?_,
             groupOf_mem := by simpa using h.groupOf_mem, opens_mem := ?_, stack_ne := ?_,
             stack_mem := ?_, opened_lt := ?_, opened := h.opened }
    · intro g y hg
      obtain ⟨z, hz, hp, ho, hc⟩ := hread g y hg
      have hf := h.fits g z hz
      have hlt := h.opened_lt g z hz
      refine ⟨hp ▸ hf.parent_ge, hp ▸ hf.parent_lt, ho ▸ hf.openAt_ge, ?_, ?_⟩
      · rcases hc with hc | hc
        · rw [ho, hc]
          exact hf.open_lt
        · omega
      · rcases hc with hc | hc
        · rw [hc]
          exact hf.close_le
        · omega
    · intro i g hg
      obtain ⟨h1, h2, h3⟩ := h.opens_mem i g hg
      refine ⟨h1, by simpa using h2, fun hg0 => ?_⟩
      obtain ⟨z, hz, hzo⟩ := h3 hg0
      rcases eq_or_ne top g with rfl | hne
      · obtain rfl : x = z := Option.some.inj (hx.symm.trans hz)
        exact ⟨{ x with closeAt := k }, (at?_set htop0).mpr (.inl ⟨rfl, htop, rfl⟩), hzo⟩
      · exact ⟨z, (at?_set htop0).mpr (.inr ⟨hne, hz⟩), hzo⟩
    · rintro rfl
      simp [hst] at hlen
    · intro g hg
      simpa using h.stack_mem g (by simp [hst, hg])
    · intro g y hg
      obtain ⟨z, hz, -, ho, -⟩ := hread g y hg
      rw [ho]
      exact h.opened_lt g z hz
  · exact yields_some h

/-- A token that opens no group. -/
theorem Built.next (h : Built toks k s) (hp : isPunct toks k '(' = false) :
    Built toks (k + 1) s :=
  { h with
    opened_lt := fun g x hg => by
      have := h.opened_lt g x hg
      omega
    opened := fun i hi hi' => by
      rcases eq_or_ne i k with rfl | hne
      · rw [hp] at hi'
        cases hi'
      · exact h.opened i (by omega) hi' }

theorem Built.turn (h : Built toks k s) (hk0 : 0 ≤ k) (hk : k < toks.length) :
    Yields (groupTurn toks s k) (Built toks (k + 1)) := by
  unfold groupTurn
  split_ifs with ho hc
  · exact h.push hk0 hk
  · exact (h.pop hk).bind fun s hs => (hs.mark hk0 hk).imp fun s' hs' =>
      hs'.1.next (by simpa using ho)
  · exact (h.mark hk0 hk).imp fun s' hs' => hs'.1.next (by simpa using ho)

end Steps

namespace Brackets

/-- What `buildGroups` makes. -/
structure WF (b : Brackets) : Prop extends Tables b.size b.groups b.groupOf_ b.opens_ where
  groups_ne : b.groups ≠ []
  opened : ∀ i, isPunct b.toks i '(' → Yields (at? b.opens_ i) fun g => 0 ≤ g

end Brackets

theorem buildGroups_yields (toks : List Sym) :
    Yields (buildGroups toks) fun b => b.WF ∧ b.toks = toks := by
  have hrun : Yields ((upTo 0 toks.length).foldlM (groupTurn toks)
      { groups := [⟨-1, -1, toks.length⟩], groupOf_ := List.replicate toks.length 0
        opens_ := List.replicate toks.length (-1), stack := [0] }) (Built toks toks.length) :=
    foldlM_upTo_yields (Built toks) (by omega) (fun i s hi hlt hs => hs.turn hi hlt) (Built.init toks)
  refine hrun.bind fun s hs => yields_some ⟨?_, rfl⟩
  refine { hs.toTables with groups_ne := ?_, opened := fun i hi => ?_ }
  · obtain ⟨top, rest, hst⟩ := List.exists_cons_of_ne_nil hs.stack_ne
    rintro hnil
    have := hs.stack_mem top (by simp [hst])
    simp only at hnil
    simp [hnil] at this
    omega
  · have hlt : i < toks.length := by
      rw [isPunct, decide_eq_true_eq] at hi
      exact (at?_bounds hi).2.1
    exact hs.opened i hlt hi

namespace Brackets

variable {b : Brackets} (h : b.WF)
include h

theorem groupOf_yields {i : ℤ} (h0 : 0 ≤ i) (hi : i < b.size) :
    Yields (b.groupOf i) fun g => 0 ≤ g ∧ g < b.groups.length :=
  (Yields.at b.groupOf_ h0 (by rw [h.lengthOf]; exact hi)).imp fun g hg => h.groupOf_mem i g hg

/-- An opening parenthesis opens a group that closes after it. -/
theorem closeOf_yields {i : ℤ} (hi : isPunct b.toks i '(') :
    Yields (b.closeOf i) fun c => i < c ∧ c ≤ b.size := by
  obtain ⟨g, hg, hg0⟩ := h.opened i hi
  obtain ⟨-, -, hopen⟩ := h.opens_mem i g hg
  obtain ⟨x, hx, rfl⟩ := hopen hg0
  refine ⟨x.closeAt, ?_, (h.fits g x hx).open_lt, (h.fits g x hx).close_le⟩
  simp [closeOf, hg, hx, not_lt.mpr hg0]

theorem opens_yields {i : ℤ} (hi : isPunct b.toks i '(') :
    Yields (at? b.opens_ i) fun g => 0 ≤ g ∧ g < b.groups.length :=
  (h.opened i hi).elim fun g hg => ⟨g, hg.1, hg.2, (h.opens_mem i g hg.1).2.1⟩

theorem groups_yields {g : ℤ} (h0 : 0 ≤ g) (hg : g < b.groups.length) :
    Yields (at? b.groups g) fun x => x.Fits b.size g :=
  (Yields.at b.groups h0 hg).imp fun x hx => h.fits g x hx

theorem isAncestorOrSelf_yields (ancestor : ℤ) {g : ℤ} (hg : g < b.groups.length) :
    Yields (b.isAncestorOrSelf ancestor g) fun _ => True := by
  refine loop_total (fun g : ℤ => g < b.groups.length) (fun g => (g + 1).toNat)
    (fun g hg => ?_) hg (by omega)
  unfold ancestorTurn
  split_ifs with h0 he
  · exact .done trivial
  · obtain ⟨x, hx, hf⟩ := groups_yields h h0 hg
    have hlt := hf.parent_lt
    rw [hx]
    change Advances _ _ _ _ (some (.next x.parent))
    exact .next (hlt.trans hg) (by omega)
  · exact .done trivial

theorem depthOf_yields {g : ℤ} (hg : g < b.groups.length) :
    Yields (b.depthOf g) fun d => 0 ≤ d := by
  refine loop_total (fun s : ℤ × ℤ => s.1 < b.groups.length ∧ 0 ≤ s.2) (fun s => s.1.toNat)
    (fun s hs => ?_) ⟨hg, le_rfl⟩ (by simp only; omega)
  unfold depthTurn
  split_ifs with h0
  · obtain ⟨x, hx, hf⟩ := groups_yields h h0.le hs.1
    have := hf.parent_lt
    rw [hx]
    change Advances _ _ _ _ (some (.next (x.parent, s.2 + 1)))
    exact .next ⟨by simp only; omega, by simp only; omega⟩ (by simp only; omega)
  · exact .done hs.2

end Brackets
end DearSql
