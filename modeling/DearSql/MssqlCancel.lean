import DearSql.Interleavings

/-! `MSSQLDatabase::execute` and `MSSQLDatabase::cancel` on one handle, called from any
number of threads. The mutex, the counter and the flag are read and written by atomic
operations, each an event of its own; what a call does with the connection between them is
left to the model of one call, which learns of a cancel only by reading the flag. -/
namespace DearSql.Mssql.Cancel
open Interleavings

/-- What the threads share: `inCall_` counts the calls waiting for or holding `mu_`. -/
structure Handle where
  cancelled_ : Bool := false
  inCall_ : ℤ := 0
  mu_ : Bool := false
  deriving DecidableEq, Repr

/-- Where a thread is. `running` knows whether its run has read the flag as set. -/
inductive Place
  | idle
  | waiting
  | running (noticed : Bool)
  | cleared
  | returning
  | marking
  | guarded
  deriving DecidableEq, Repr

inductive Event
  /-- `++inCall_`, on entry to `execute`. -/
  | enter
  /-- `execute` takes `mu_`. -/
  | lock
  /-- The run reads the flag, between rows or from the interrupt hook. -/
  | poll (flag : Bool)
  /-- `cancelled_ = false`, once the run is over; whether it had noticed a cancel. -/
  | clear (noticed : Bool)
  /-- `--inCall_`. -/
  | leave
  /-- The guard of `execute` gives `mu_` back. -/
  | unlock
  /-- `cancel` reads the counter; whether it found a call. -/
  | ask (found : Bool)
  /-- `cancel` sets the flag. -/
  | mark
  /-- `open` or `alive` takes `mu_`. -/
  | take
  /-- `open` or `alive` gives `mu_` back. -/
  | give
  deriving DecidableEq, Repr

def act : Event → Handle → Place → Option (Handle × Place)
  | .enter, s, .idle => some ({ s with inCall_ := s.inCall_ + 1 }, .waiting)
  | .lock, s, .waiting => if s.mu_ then none else some ({ s with mu_ := true }, .running false)
  | .poll b, s, .running n => if s.cancelled_ = b then some (s, .running (n || b)) else none
  | .clear b, s, .running n =>
    if n = b then some ({ s with cancelled_ := false }, .cleared) else none
  | .leave, s, .cleared => some ({ s with inCall_ := s.inCall_ - 1 }, .returning)
  | .unlock, s, .returning => some ({ s with mu_ := false }, .idle)
  | .ask b, s, .idle =>
    if decide (0 < s.inCall_) = b then some (s, if b then .marking else .idle) else none
  | .mark, s, .marking => some ({ s with cancelled_ := true }, .idle)
  | .take, s, .idle => if s.mu_ then none else some ({ s with mu_ := true }, .guarded)
  | .give, s, .guarded => some ({ s with mu_ := false }, .idle)
  | _, _, _ => none

variable {ι : Type*} [DecidableEq ι]

abbrev State (ι : Type*) := Config ι Handle Place

abbrev History (ι : Type*) := List (ι × Event)

/-- A handle no call has been made on. -/
def fresh : State ι := ⟨{}, fun _ => .idle⟩

/-- The thread holds `mu_`. -/
def Place.holds : Place → Bool
  | .running _ | .cleared | .returning | .guarded => true
  | _ => false

/-- What `inCall_` counts of a thread: a call waiting for or holding `mu_`. -/
def Place.counted : Place → ℤ
  | .waiting | .running _ | .cleared => 1
  | _ => 0

/-- The flag has been set and no run has ended since. -/
def Marked (h : History ι) : Prop :=
  ∃ a j g, h = a ++ (j, .mark) :: g ∧ ∀ x ∈ g, ∀ n, x.2 ≠ .clear n

section Operations

variable {e : Event} {s s' : Handle} {k k' : Place}

theorem act_mu (ha : act e s k = some (s', k')) :
    (s'.mu_ = s.mu_ ∧ k'.holds = k.holds) ∨
      (s.mu_ = false ∧ s'.mu_ = true ∧ k'.holds = true) ∨
      (k.holds = true ∧ s'.mu_ = false ∧ k'.holds = false) := by
  cases e <;> cases k <;> simp [act] at ha <;> grind [Place.holds]

theorem act_inCall (ha : act e s k = some (s', k')) :
    s'.inCall_ + k.counted = s.inCall_ + k'.counted := by
  cases e <;> cases k <;> simp [act] at ha <;> grind [Place.counted]

theorem act_flag (ha : act e s k = some (s', k')) :
    s'.cancelled_ = true ↔ e = .mark ∨ s.cancelled_ = true ∧ ∀ n, e ≠ .clear n := by
  cases e <;> cases k <;> simp [act] at ha <;> grind

/-- What a run that ends uses up, and what a cancel puts in hand. -/
theorem act_account (hk : k = .running true → s.cancelled_ = true)
    (ha : act e s k = some (s', k')) :
    (if e = .clear true then 1 else 0) + (if s'.cancelled_ then 1 else 0)
        ≤ (if s.cancelled_ then 1 else 0) + (if e = .mark then 1 else 0) ∧
      (k' = .running true → s'.cancelled_ = true) := by
  cases e <;> cases k <;> simp [act] at ha <;> grind

end Operations

omit [DecidableEq ι] in
theorem marked_concat {h : History ι} {x : ι × Event} :
    Marked (h ++ [x]) ↔ x.2 = .mark ∨ Marked h ∧ ∀ n, x.2 ≠ .clear n := by
  constructor
  · rintro ⟨a, j, g, hg, hclear⟩
    rcases g.eq_nil_or_concat' with rfl | ⟨g, y, rfl⟩
    · exact .inl (by rw [(List.append_inj' hg rfl).2 |> List.singleton_inj.mp])
    · rw [← List.cons_append, ← List.append_assoc] at hg
      obtain ⟨rfl, hxy⟩ := List.append_inj' hg rfl
      obtain rfl := List.singleton_inj.mp hxy
      exact .inr ⟨⟨a, j, g, rfl, fun z hz => hclear z (by simp [hz])⟩, hclear x (by simp)⟩
  · rintro (hx | ⟨⟨a, j, g, rfl, hclear⟩, hx⟩)
    · exact ⟨h, x.1, [], by rw [← hx], by simp⟩
    · refine ⟨a, j, g ++ [x], by simp, fun y hy => ?_⟩
      rcases List.mem_append.mp hy with hy | hy
      · exact hclear y hy
      · exact List.mem_singleton.mp hy ▸ hx

variable {h a g : History ι} {c d : State ι} {x : ι × Event} {i j : ι} {b : Bool}

/-- In every state a history reaches, the flag is set exactly where a cancel has set it and
no run has ended since. -/
theorem flag_iff_marked (hrun : run act fresh h = some c) :
    c.shared.cancelled_ = true ↔ Marked h := by
  refine history_invariant (J := fun h c => c.shared.cancelled_ = true ↔ Marked h) ?_ ?_ hrun
  · simp [fresh, Marked]
  · intro h c x d hc hx
    rw [marked_concat, ← hc]
    exact act_flag (step_act hx)

theorem step_poll (hx : step act c (i, .poll b) = some d) :
    c.shared.cancelled_ = b ∧ ∃ n, d.own i = .running n := by
  have ha := step_act hx
  cases hi : c.own i <;> simp [act, hi] at ha
  exact ⟨ha.1, _, ha.2.2.symm⟩

/-- A run under way ends by clearing the flag and in no other way. -/
theorem running_step (hx : step act c x = some d) (hclear : ∀ n, x.2 ≠ .clear n)
    (hi : ∃ n, c.own i = .running n) : ∃ n, d.own i = .running n := by
  obtain ⟨n, hn⟩ := hi
  by_cases hne : i = x.1
  · subst hne
    have ha := step_act hx
    rw [hn] at ha
    cases he : x.2 <;> simp [act, he] at ha
    · exact ⟨_, ha.2.2.symm⟩
    · exact absurd he (hclear _)
  · exact ⟨n, (own_other hx hne).trans hn⟩

theorem running_run (hrun : run act c g = some d) (hclear : ∀ x ∈ g, ∀ n, x.2 ≠ .clear n)
    (hi : ∃ n, c.own i = .running n) : ∃ n, d.own i = .running n := by
  refine history_invariant
    (J := fun g d => (∀ x ∈ g, ∀ n, x.2 ≠ .clear n) → ∃ n, d.own i = .running n)
    (fun _ => hi) ?_ hrun hclear
  intro g c x d hc hx hclear
  exact running_step hx (hclear x (by simp)) (hc fun y hy => hclear y (by simp [hy]))

/-- Since the flag was set every reading finds it set, and whoever read it is still running. -/
theorem polled_running (hrun : run act fresh (a ++ (j, .mark) :: g) = some c)
    (hclear : ∀ x ∈ g, ∀ n, x.2 ≠ .clear n) :
    ∀ x ∈ g, ∀ b, x.2 = .poll b → b = true ∧ ∃ n, c.own x.1 = .running n := by
  induction g using List.reverseRecOn generalizing c with
  | nil => simp
  | append_singleton g y ih =>
    rw [← List.cons_append, ← List.append_assoc, run_concat_eq_some] at hrun
    obtain ⟨m, hm, hy⟩ := hrun
    have hbefore : ∀ x ∈ g, ∀ n, x.2 ≠ .clear n := fun x hx => hclear x (by simp [hx])
    intro x hx b hb
    rcases List.mem_append.mp hx with hx | hx
    · obtain ⟨hset, hrunning⟩ := ih hm hbefore x hx b hb
      exact ⟨hset, running_step hy (hclear y (by simp)) hrunning⟩
    · obtain rfl := List.mem_singleton.mp hx
      obtain ⟨i, e⟩ := x
      obtain rfl : e = .poll b := hb
      obtain ⟨hflag, hrunning⟩ := step_poll hy
      have hset := (flag_iff_marked hm).mpr ⟨a, j, g, rfl, hbefore⟩
      exact ⟨hflag ▸ hset, hrunning⟩

section Threads

theorem owned (hrun : run act fresh h = some c) : Owned Handle.mu_ Place.holds c :=
  owned_run (fun _ _ _ _ _ => act_mu) ⟨none, rfl, by simp [fresh, Place.holds]⟩ hrun

theorem running_unique (hrun : run act fresh h = some c) (hi : ∃ n, c.own i = .running n)
    (hj : ∃ n, c.own j = .running n) : i = j := by
  obtain ⟨n, hn⟩ := hi
  obtain ⟨k, hk⟩ := hj
  exact (owned hrun).eq (by simp [hn, Place.holds]) (by simp [hk, Place.holds])

/-- From the setting of the flag to the end of the next run, every reading finds it set and
all are one call's: that of the run under way when it was set, where there was one. -/
theorem cancel_reaches_one_call (hrun : run act fresh (a ++ (j, .mark) :: g) = some c)
    (hclear : ∀ x ∈ g, ∀ n, x.2 ≠ .clear n) :
    (∀ x ∈ g, ∀ b, x.2 = .poll b → b = true) ∧
      (∀ x ∈ g, ∀ y ∈ g, ∀ b b', x.2 = .poll b → y.2 = .poll b' → x.1 = y.1) ∧
      ∀ m i n, run act fresh a = some m → m.own i = .running n →
        ∀ x ∈ g, ∀ b, x.2 = .poll b → x.1 = i := by
  have hpolled := polled_running hrun hclear
  refine ⟨fun x hx b hb => (hpolled x hx b hb).1, fun x hx y hy b b' hb hb' => ?_,
    fun m i n hm hi x hx b hb => ?_⟩
  · exact running_unique hrun (hpolled x hx b hb).2 (hpolled y hy b' hb').2
  · obtain ⟨m', hm', hg⟩ := run_append_eq_some.mp hrun
    obtain rfl : m = m' := Option.some.inj (hm.symm.trans hm')
    have hstill := running_run hg (by simpa using hclear) ⟨n, hi⟩
    exact running_unique hrun (hpolled x hx b hb).2 hstill

/-- Each run that ends having noticed a cancel uses one up, and the flag keeps one in hand. -/
def Accounted (h : History ι) (c : State ι) : Prop :=
  h.countP (fun x => x.2 = .clear true) + (if c.shared.cancelled_ then 1 else 0)
      ≤ h.countP (fun x => x.2 = .mark) ∧
    ∀ i, c.own i = .running true → c.shared.cancelled_ = true

theorem step_clear {n : Bool} (hx : step act c x = some d) (hn : x.2 = .clear n) :
    c.own x.1 = .running n := by
  have ha := step_act hx
  rw [hn] at ha
  cases hi : c.own x.1 <;> simp [act, hi] at ha
  rw [ha.1]

theorem accounted (hrun : run act fresh h = some c) : Accounted h c := by
  induction h using List.reverseRecOn generalizing c with
  | nil =>
    obtain rfl := Option.some.inj hrun
    exact ⟨le_rfl, fun i hi => by cases hi⟩
  | append_singleton h x ih =>
    obtain ⟨m, hm, hx⟩ := run_concat_eq_some.mp hrun
    obtain ⟨hle, hnoticed⟩ := ih hm
    obtain ⟨hmoved, hown⟩ := act_account (hnoticed x.1) (step_act hx)
    constructor
    · simp only [List.countP_append, List.countP_singleton, decide_eq_true_eq]
      omega
    · intro i hi
      by_cases hne : i = x.1
      · exact hown (hne ▸ hi)
      · rw [own_other hx hne] at hi
        -- the flag is cleared only by the one call that is running
        have hclear : ∀ n, x.2 ≠ .clear n := fun n hn =>
          hne (running_unique hm ⟨true, hi⟩ ⟨n, step_clear hx hn⟩)
        exact (act_flag (step_act hx)).mpr (.inr ⟨hnoticed i hi, hclear⟩)

/-- A thread about to set the flag has found a call in progress, and has done nothing since. -/
theorem asked (hrun : run act fresh h = some c) (hj : c.own j = .marking) :
    ∃ a g, h = a ++ (j, .ask true) :: g ∧ ∀ x ∈ g, x.1 ≠ j := by
  refine history_invariant
    (J := fun h c => c.own j = .marking → ∃ a g, h = a ++ (j, .ask true) :: g ∧ ∀ x ∈ g, x.1 ≠ j)
    (fun h0 => by cases h0) ?_ hrun hj
  intro h c x d hc hx hj
  by_cases hne : j = x.1
  · subst hne
    have ha := step_act hx
    rw [hj] at ha
    refine ⟨h, [], ?_, by simp⟩
    obtain ⟨i, e⟩ := x
    cases e <;> cases hi : c.own i <;> simp [act, hi] at ha ⊢
    exact ha.2.2
  · obtain ⟨a, g, rfl, hg⟩ := hc (own_other hx hne ▸ hj)
    refine ⟨a, g ++ [x], by simp, fun y hy => ?_⟩
    rcases List.mem_append.mp hy with hy | hy
    · exact hg y hy
    · exact List.mem_singleton.mp hy ▸ Ne.symm hne

variable [Fintype ι]

theorem counted_nonneg (k : Place) : 0 ≤ k.counted := by cases k <;> simp [Place.counted]

theorem inCall_counts (hrun : run act fresh h = some c) :
    c.shared.inCall_ = ∑ i, (c.own i).counted :=
  sum_invariant Place.counted Handle.inCall_ counted_nonneg
    (fun _ _ _ _ _ _ ha => act_inCall ha) (by simp [fresh, Place.counted]) hrun

/-- `cancel` goes on to set the flag only where some call is in progress. -/
theorem found_counted (hrun : run act fresh h = some c)
    (hx : step act c (j, .ask true) = some d) : ∃ i, 0 < (c.own i).counted := by
  have ha := step_act hx
  have hpos : 0 < c.shared.inCall_ := by
    cases hi : c.own j <;> simp [act, hi] at ha
    exact ha.1
  rw [inCall_counts hrun] at hpos
  obtain ⟨i, -, hi⟩ := Finset.exists_lt_of_sum_lt (s := Finset.univ) (f := fun _ => 0)
    (g := fun i => (c.own i).counted) (by simpa using hpos)
  exact ⟨i, hi⟩

/-- No more calls end having noticed a cancel than cancels were made, and each of those found
a call in progress when it looked. -/
theorem cancelled_by_cancel (hrun : run act fresh h = some c) :
    h.countP (fun x => x.2 = .clear true) ≤ h.countP (fun x => x.2 = .mark) ∧
      ∀ a j g, h = a ++ (j, .mark) :: g → ∃ a' g' m i,
        a = a' ++ (j, .ask true) :: g' ∧ (∀ x ∈ g', x.1 ≠ j) ∧ run act fresh a' = some m ∧
          0 < (m.own i).counted := by
  constructor
  · exact (Nat.le_add_right _ _).trans (accounted hrun).1
  · rintro a j g rfl
    obtain ⟨m, hm, hg⟩ := run_append_eq_some.mp hrun
    obtain ⟨m', hmark, -⟩ := Option.bind_eq_some_iff.mp hg
    have hmarking : m.own j = .marking := by
      have ha := step_act hmark
      cases hi : m.own j <;> simp [act, hi] at ha
      rfl
    obtain ⟨a', g', rfl, hg'⟩ := asked hm hmarking
    obtain ⟨n, hn, hrest⟩ := run_append_eq_some.mp hm
    obtain ⟨n', hask, -⟩ := Option.bind_eq_some_iff.mp hrest
    obtain ⟨i, hi⟩ := found_counted hn hask
    exact ⟨a', g', n, i, rfl, hg', hn, hi⟩

/-- A cancel between two readings of one call, while another comes to wait behind it. -/
theorem cancel_reaches_one_call_waiting : ∃ c : State (Fin 3),
    run act fresh ([(0, .enter), (0, .lock), (0, .poll false), (2, .ask true)] ++
      (2, .mark) :: [(1, .enter), (0, .poll true)]) = some c ∧
    ∀ x ∈ [((1 : Fin 3), Event.enter), (0, .poll true)], ∀ b, x.2 = .poll b → x.1 = 0 := by
  have hbefore : run act (fresh : State (Fin 3))
      [(0, .enter), (0, .lock), (0, .poll false), (2, .ask true)] = some _ := rfl
  refine ⟨_, rfl, ?_⟩
  exact (cancel_reaches_one_call (j := 2) rfl (by decide)).2.2 _ 0 false hbefore rfl

/-- A cancel that finds a call still waiting for its turn. -/
theorem cancelled_by_cancel_waiting : ∃ c : State (Fin 3),
    run act fresh [(0, .enter), (2, .ask true), (2, .mark), (0, .lock), (0, .poll true),
      (0, .clear true)] = some c ∧
    [((0 : Fin 3), Event.enter), (2, .ask true), (2, .mark), (0, .lock), (0, .poll true),
      (0, .clear true)].countP (fun x => x.2 = .clear true) ≤ 1 := by
  have hrun : run act (fresh : State (Fin 3)) [(0, .enter), (2, .ask true), (2, .mark),
      (0, .lock), (0, .poll true), (0, .clear true)] = some _ := rfl
  exact ⟨_, hrun, (cancelled_by_cancel hrun).1⟩

end Threads

end DearSql.Mssql.Cancel
