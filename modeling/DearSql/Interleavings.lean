import Mathlib

/-! Threads over a shared state. An event is one thread's next atomic operation, which
reads and writes the shared state and the thread's own; a history lists the events in the
order they take effect, so every history is one interleaving. -/
namespace DearSql.Interleavings

variable {ι σ κ ε : Type*}

/-- The shared state, and what each thread has of its own. -/
structure Config (ι σ κ : Type*) where
  shared : σ
  own : ι → κ

variable [DecidableEq ι] {act : ε → σ → κ → Option (σ × κ)} {c d : Config ι σ κ} {x : ι × ε}
  {g h : List (ι × ε)}

/-- One event, where the operation is enabled. -/
def step (act : ε → σ → κ → Option (σ × κ)) (c : Config ι σ κ) (x : ι × ε) :
    Option (Config ι σ κ) :=
  (act x.2 c.shared (c.own x.1)).map fun r => ⟨r.1, Function.update c.own x.1 r.2⟩

def run (act : ε → σ → κ → Option (σ × κ)) :
    Config ι σ κ → List (ι × ε) → Option (Config ι σ κ)
  | c, [] => some c
  | c, x :: h => (step act c x).bind fun d => run act d h

theorem step_eq_some : step act c x = some d ↔
    ∃ s k, act x.2 c.shared (c.own x.1) = some (s, k) ∧
      d = ⟨s, Function.update c.own x.1 k⟩ := by
  simp only [step, Option.map_eq_some_iff, Prod.exists]
  constructor
  · rintro ⟨s, k, ha, rfl⟩
    exact ⟨s, k, ha, rfl⟩
  · rintro ⟨s, k, ha, rfl⟩
    exact ⟨s, k, ha, rfl⟩

theorem step_act (hstep : step act c x = some d) :
    act x.2 c.shared (c.own x.1) = some (d.shared, d.own x.1) := by
  obtain ⟨s, k, ha, rfl⟩ := step_eq_some.mp hstep
  simpa using ha

/-- A step changes nothing another thread has of its own. -/
theorem own_other (hstep : step act c x = some d) {i : ι} (hi : i ≠ x.1) :
    d.own i = c.own i := by
  obtain ⟨s, k, -, rfl⟩ := step_eq_some.mp hstep
  exact Function.update_of_ne hi k c.own

theorem run_append : run act c (g ++ h) = (run act c g).bind fun d => run act d h := by
  induction g generalizing c with
  | nil => rfl
  | cons x g ih =>
    rw [List.cons_append, run, run, Option.bind_assoc]
    exact congrArg _ (funext fun d => ih)

theorem run_concat : run act c (h ++ [x]) = (run act c h).bind fun d => step act d x := by
  rw [run_append]
  congr 1
  funext d
  exact Option.bind_fun_some _

theorem run_concat_eq_some :
    run act c (h ++ [x]) = some d ↔ ∃ m, run act c h = some m ∧ step act m x = some d := by
  rw [run_concat, Option.bind_eq_some_iff]

theorem run_append_eq_some :
    run act c (g ++ h) = some d ↔ ∃ m, run act c g = some m ∧ run act m h = some d := by
  rw [run_append, Option.bind_eq_some_iff]

/-- What holds at first and is kept by every event, of the history so far and the state it
reaches, holds along the history. -/
theorem history_invariant {J : List (ι × ε) → Config ι σ κ → Prop} {c₀ : Config ι σ κ}
    (h0 : J [] c₀) (hstep : ∀ h c x d, J h c → step act c x = some d → J (h ++ [x]) d)
    (hrun : run act c₀ h = some c) : J h c := by
  induction h using List.reverseRecOn generalizing c with
  | nil => exact Option.some.inj hrun ▸ h0
  | append_singleton h x ih =>
    obtain ⟨m, hm, hx⟩ := run_concat_eq_some.mp hrun
    exact hstep h m x c (ih hm) hx

theorem invariant {P : Config ι σ κ → Prop} (hstep : ∀ c x d, P c → step act c x = some d →
    P d) (h0 : P c) (hrun : run act c h = some d) : P d :=
  history_invariant (J := fun _ => P) h0 (fun _ c x d => hstep c x d) hrun

section Weights

variable [Fintype ι]

/-- What all threads weigh together moves as the acting thread's own weight does. -/
theorem sum_update (w : κ → ℤ) (own : ι → κ) (i : ι) (k : κ) :
    ∑ j, w (Function.update own i k j) + w (own i) = ∑ j, w (own j) + w k := by
  have hmoved : (fun j => w (Function.update own i k j))
      = Function.update (fun j => w (own j)) i (w k) :=
    funext fun j => Function.apply_update (fun _ => w) own i k j
  rw [hmoved, Finset.sum_update_of_mem (Finset.mem_univ i),
    Finset.sum_eq_add_sum_sdiff_singleton_of_mem (Finset.mem_univ i) fun j => w (own j)]
  omega

/-- A reading of the shared state that each operation moves by as much as its thread's weight
moves is the weight of all threads, in every state a history reaches. -/
theorem sum_invariant (w : κ → ℤ) (m : σ → ℤ) (hw : ∀ k, 0 ≤ w k)
    (hact : ∀ e s k s' k', w k ≤ m s → act e s k = some (s', k') → m s' + w k = m s + w k')
    (h0 : m c.shared = ∑ i, w (c.own i)) (hrun : run act c h = some d) :
    m d.shared = ∑ i, w (d.own i) := by
  refine invariant (P := fun c => m c.shared = ∑ i, w (c.own i)) ?_ h0 hrun
  intro c x d hc hx
  obtain ⟨s, k, ha, rfl⟩ := step_eq_some.mp hx
  have hle : w (c.own x.1) ≤ ∑ i, w (c.own i) :=
    Finset.single_le_sum (f := fun i => w (c.own i)) (fun i _ => hw (c.own i))
      (Finset.mem_univ x.1)
  have hmoved := hact _ _ _ _ _ (hc ▸ hle) ha
  have hsum := sum_update w c.own x.1 k
  change m s = ∑ j, w (Function.update c.own x.1 k j)
  omega

/-- Where each event of a kind leaves its thread less than it had, a history of such events is no
longer than what all threads have at first. -/
theorem length_add_sum_le {p : ε → Prop} (left : κ → ℕ)
    (hact : ∀ e s k s' k', p e → act e s k = some (s', k') → left k' < left k)
    (hh : ∀ x ∈ h, p x.2) (hrun : run act c h = some d) :
    h.length + ∑ i, left (d.own i) ≤ ∑ i, left (c.own i) := by
  induction h generalizing c with
  | nil =>
    obtain rfl : c = d := Option.some.inj hrun
    simp
  | cons x h ih =>
    obtain ⟨m, hm, hd⟩ := Option.bind_eq_some_iff.mp hrun
    rw [List.forall_mem_cons] at hh
    have hrest := ih hh.2 hd
    obtain ⟨s, k, ha, rfl⟩ := step_eq_some.mp hm
    have hless := hact _ _ _ _ _ hh.1 ha
    have hsum := sum_update (fun k => (left k : ℤ)) c.own x.1 k
    norm_cast at hsum
    change h.length + 1 + _ ≤ _
    change h.length + _ ≤ ∑ i, left (Function.update c.own x.1 k i) at hrest
    omega

end Weights

section Flags

variable {flag : σ → Bool} {held : κ → Bool} {i j : ι}

/-- A flag is raised just while some thread holds it, and one thread holds it at a time. -/
def Owned (flag : σ → Bool) (held : κ → Bool) (c : Config ι σ κ) : Prop :=
  ∃ o : Option ι, flag c.shared = o.isSome ∧ ∀ i, held (c.own i) = true ↔ o = some i

/-- A flag that each operation leaves, takes while it is down or gives back stays owned. -/
theorem owned_run {c₀ : Config ι σ κ}
    (hact : ∀ e s k s' k', act e s k = some (s', k') → (flag s' = flag s ∧ held k' = held k) ∨
      (flag s = false ∧ flag s' = true ∧ held k' = true) ∨
      (held k = true ∧ flag s' = false ∧ held k' = false))
    (h0 : Owned flag held c₀) (hrun : run act c₀ h = some d) : Owned flag held d := by
  refine invariant ?_ h0 hrun
  rintro c x d ⟨o, ho, hown⟩ hx
  obtain ⟨s, k, ha, rfl⟩ := step_eq_some.mp hx
  obtain ⟨hs, hk⟩ | ⟨hdown, hs, hk⟩ | ⟨hmine, hs, hk⟩ := hact _ _ _ _ _ ha
  · refine ⟨o, hs.trans ho, fun i => ?_⟩
    obtain rfl | hi := eq_or_ne i x.1
    · simpa [hk] using hown x.1
    · simpa [Function.update_of_ne hi] using hown i
  · obtain rfl : o = none := by simpa [hdown] using ho
    refine ⟨some x.1, by simpa using hs, fun i => ?_⟩
    obtain rfl | hi := eq_or_ne i x.1
    · simpa using hk
    · simpa [Function.update_of_ne hi, hi.symm] using hown i
  · obtain rfl := (hown x.1).mp hmine
    refine ⟨none, by simpa using hs, fun i => ?_⟩
    obtain rfl | hi := eq_or_ne i x.1
    · simpa using hk
    · simpa [Function.update_of_ne hi, hi.symm] using hown i

omit [DecidableEq ι] in
theorem Owned.taken (ho : Owned flag held c) (hi : held (c.own i) = true) :
    flag c.shared = true := by
  obtain ⟨o, ho, hown⟩ := ho
  rw [ho, (hown i).mp hi, Option.isSome_some]

omit [DecidableEq ι] in
theorem Owned.eq (ho : Owned flag held c) (hi : held (c.own i) = true)
    (hj : held (c.own j) = true) : i = j := by
  obtain ⟨o, -, hown⟩ := ho
  exact Option.some.inj (((hown i).mp hi).symm.trans ((hown j).mp hj))

omit [DecidableEq ι] in
theorem Owned.exists (ho : Owned flag held c) (hflag : flag c.shared = true) :
    ∃ i, held (c.own i) = true := by
  obtain ⟨o, ho, hown⟩ := ho
  obtain ⟨i, rfl⟩ := Option.isSome_iff_exists.mp (ho.symm.trans hflag)
  exact ⟨i, (hown i).mpr rfl⟩

end Flags

omit [DecidableEq ι] in
/-- Where every thread waits only for locks above those it holds, some busy thread does not
wait, or waits for a lock that is free. -/
theorem exists_moving {ℓ : Type*} {rank : ℓ → ℕ} {bound : ℕ} {busy : ι → Prop}
    {waits : ι → Option ℓ} {holds : ι → ℓ → Prop} {free : ℓ → Prop}
    (hbound : ∀ l, rank l ≤ bound) (hheld : ∀ l, ¬ free l → ∃ i, busy i ∧ holds i l)
    (horder : ∀ i l l', waits i = some l → holds i l' → rank l' < rank l)
    {i : ι} (hi : busy i) : ∃ j, busy j ∧ ∀ l, waits j = some l → free l := by
  by_contra hstuck
  have hwaits : ∀ j, busy j → ∃ l, waits j = some l ∧ ¬ free l := by
    intro j hj
    by_contra hnone
    exact hstuck ⟨j, hj, fun l hl => by_contra fun hfree => hnone ⟨l, hl, hfree⟩⟩
  -- the holder of the lock waited for waits in turn, each time for a higher one
  have hclimb : ∀ n, ∃ j l, busy j ∧ waits j = some l ∧ n ≤ rank l := by
    intro n
    induction n with
    | zero =>
      obtain ⟨l, hl, -⟩ := hwaits i hi
      exact ⟨i, l, hi, hl, Nat.zero_le _⟩
    | succ n ih =>
      obtain ⟨j, l, hj, hl, hn⟩ := ih
      obtain ⟨l', hl', hfree⟩ := hwaits j hj
      obtain rfl : l = l' := Option.some.inj (hl.symm.trans hl')
      obtain ⟨k, hk, hkl⟩ := hheld l hfree
      obtain ⟨m, hm, -⟩ := hwaits k hk
      exact ⟨k, m, hk, hm, by have := horder k m l hm hkl; omega⟩
  obtain ⟨j, l, -, -, hl⟩ := hclimb (bound + 1)
  have := hbound l
  omega

end DearSql.Interleavings
