import DearSql.Interleavings

/-! The clients of the pool behind the handles of a MongoDB connection, used from any number of
threads. A call keeps a client for its whole length; `getTableData` keeps its own while
`getColumnNames` takes another one to sample the collection, unless the table came with its
columns. `pool_->acquire()` waits while every client is taken. -/
namespace DearSql.Mongo.Pool
open Interleavings

/-- The calls that take a client. `known` is whether the table came with its columns. -/
inductive Call
  | tables
  | describeTable
  | execute
  | getTableData (known : Bool)
  | getColumnNames
  | getRowCount
  | createTable
  | dropTable
  deriving DecidableEq, Repr

/-- The clients that wait in the pool. -/
structure Clients where
  free : ℕ
  deriving DecidableEq, Repr

/-- Where a thread is. -/
inductive Place
  | idle
  | entering (call : Call)
  | working (call : Call)
  /-- `getTableData` in `getColumnNames`, before and after its `acquire()`. -/
  | sampling
  | sampled
  | reading
  deriving DecidableEq, Repr

inductive Event
  | enter (call : Call)
  | acquire
  /-- `getTableData` calls `getColumnNames`. -/
  | sample
  /-- `getColumnNames` gives its client back. -/
  | resume
  /-- The call returns or throws. -/
  | finish
  deriving DecidableEq, Repr

def act : Event → Clients → Place → Option (Clients × Place)
  | .enter call, s, .idle => some (s, .entering call)
  | .acquire, s, .entering call => if s.free = 0 then none else some (⟨s.free - 1⟩, .working call)
  | .sample, s, .working (.getTableData known) =>
    some (s, if known then .reading else .sampling)
  | .acquire, s, .sampling => if s.free = 0 then none else some (⟨s.free - 1⟩, .sampled)
  | .resume, s, .sampled => some (⟨s.free + 1⟩, .reading)
  | .finish, s, .working _ => some (⟨s.free + 1⟩, .idle)
  | .finish, s, .reading => some (⟨s.free + 1⟩, .idle)
  | _, _, _ => none

/-- A call is made by a thread that is in none. -/
def Event.isCall : Event → Bool
  | .enter _ => true
  | _ => false

variable {ι : Type*} [DecidableEq ι]

abbrev State (ι : Type*) := Config ι Clients Place

abbrev History (ι : Type*) := List (ι × Event)

/-- A pool of `n` clients. -/
def fresh (n : ℕ) : State ι := ⟨⟨n⟩, fun _ => .idle⟩

/-- The clients a thread holds. -/
def Place.held : Place → ℤ
  | .idle | .entering _ => 0
  | .working _ | .sampling | .reading => 1
  | .sampled => 2

/-- No call under way can go on. -/
def Stuck (c : State ι) : Prop := ∀ x : ι × Event, x.2.isCall = false → step act c x = none

/-- A thread that waits for a client. -/
def Place.waits : Place → Bool
  | .entering _ | .sampling => true
  | _ => false

/-- Every client is taken, and every thread in a call waits for one. -/
def Jammed (c : State ι) : Prop :=
  c.shared.free = 0 ∧ ∀ i, c.own i = .idle ∨ (c.own i).waits = true

section Clients

variable {e : Event} {s s' : Clients} {k k' : Place} {n : ℕ} {c d : State ι} {g h : History ι}
  {i : ι}

theorem act_held (ha : act e s k = some (s', k')) : s'.free + k'.held = s.free + k.held := by
  unfold act at ha
  split at ha <;> grind [Place.held]

theorem held_nonneg (k : Place) : 0 ≤ k.held := by
  cases k <;> simp [Place.held]

variable [Fintype ι]

/-- Each client waits in the pool or is held by a thread. -/
theorem clients (hrun : run act (fresh n) h = some c) :
    (c.shared.free : ℤ) + ∑ i, (c.own i).held = n := by
  have hsum := sum_invariant Place.held (fun s : Clients => (n : ℤ) - s.free) held_nonneg ?_ ?_ hrun
  · omega
  · intro e s k s' k' _ ha
    have := act_held ha
    omega
  · simp [fresh, Place.held]

omit [Fintype ι] in
theorem jammed_of_stuck (hstuck : Stuck c) {i : ι} (hi : c.own i ≠ .idle) : Jammed c := by
  have hact : ∀ j (e : Event), e.isCall = false → act e c.shared (c.own j) = none := by
    intro j e he
    simpa [step] using hstuck (j, e) he
  have hwaits : ∀ j, c.own j ≠ .idle → (c.own j).waits = true ∧ c.shared.free = 0 := by
    intro j hj
    have hacquire := hact j .acquire rfl
    have hresume := hact j .resume rfl
    have hfinish := hact j .finish rfl
    cases hk : c.own j with
    | idle => exact absurd hk hj
    | entering call => exact ⟨rfl, by simpa [act, hk] using hacquire⟩
    | sampling => exact ⟨rfl, by simpa [act, hk] using hacquire⟩
    | working call => simp [act, hk] at hfinish
    | sampled => simp [act, hk] at hresume
    | reading => simp [act, hk] at hfinish
  exact ⟨(hwaits i hi).2, fun j => or_iff_not_imp_left.mpr fun hj => (hwaits j hj).1⟩

theorem act_jammed (hs : s.free = 0) (hk : k = .idle ∨ k.waits = true)
    (ha : act e s k = some (s', k')) :
    e.isCall = true ∧ k = .idle ∧ s' = s ∧ k'.waits = true := by
  unfold act at ha
  split at ha <;> grind [Event.isCall, Place.waits]

omit [Fintype ι] in
theorem Jammed.stuck (hc : Jammed c) : Stuck c := by
  intro x hx
  cases ha : act x.2 c.shared (c.own x.1) with
  | none => simp [step, ha]
  | some r =>
    have := act_jammed hc.1 (hc.2 x.1) ha
    simp [hx] at this

omit [Fintype ι] in
/-- A deadlock is for good: whatever is called next, no thread that waits is served. -/
theorem Jammed.lasts (hc : Jammed c) (hd : run act c g = some d) :
    Jammed d ∧ ∀ i, (c.own i).waits = true → d.own i = c.own i := by
  refine invariant (P := fun e => Jammed e ∧ ∀ i, (c.own i).waits = true → e.own i = c.own i)
    ?_ ⟨hc, fun i _ => rfl⟩ hd
  rintro e x d ⟨he, hown⟩ hx
  obtain ⟨-, hidle, hs, hk⟩ := act_jammed he.1 (he.2 x.1) (step_act hx)
  refine ⟨⟨hs ▸ he.1, fun i => ?_⟩, fun i hi => ?_⟩
  · obtain rfl | hix := eq_or_ne i x.1
    · exact .inr hk
    · exact own_other hx hix ▸ he.2 i
  · have hix : i ≠ x.1 := by
      rintro rfl
      rw [← hown x.1 hi, hidle] at hi
      cases hi
    exact (own_other hx hix).trans (hown i hi)

/-- In a deadlock every client is held by a thread that waits for another one. -/
theorem card_sampling (hrun : run act (fresh n) h = some c) (hc : Jammed c) :
    (Finset.univ.filter fun i => c.own i = .sampling).card = n := by
  have hheld : ∀ i, (c.own i).held = if c.own i = .sampling then 1 else 0 := by
    intro i
    have hi := hc.2 i
    cases hk : c.own i <;> simp_all [Place.held, Place.waits]
  have hsum := clients hrun
  rw [hc.1, Finset.sum_congr rfl fun i _ => hheld i, Finset.sum_boole] at hsum
  omega

end Clients

section Deadlock

variable {n m : ℕ} {c d : State ι} {g h : History ι}

/-- Each of the threads asks for a page of a table whose columns it does not know. -/
def samples (l : List ι) : History ι :=
  l.flatMap fun i => [(i, .enter (.getTableData false)), (i, .acquire), (i, .sample)]

omit [DecidableEq ι] in
theorem samples_cons (i : ι) (l : List ι) : samples (i :: l) =
    [(i, .enter (.getTableData false)), (i, .acquire), (i, .sample)] ++ samples l := rfl

theorem run_sample {i : ι} (hi : c.own i = .idle) (hfree : c.shared.free = m + 1) :
    run act c [(i, .enter (.getTableData false)), (i, .acquire), (i, .sample)] =
      some ⟨⟨m⟩, Function.update c.own i .sampling⟩ := by
  simp [run, step, act, hi, hfree]

theorem run_samples {l : List ι} (hl : l.Nodup) (hidle : ∀ i ∈ l, c.own i = .idle)
    (hfree : c.shared.free = m + l.length) : ∃ d, run act c (samples l) = some d ∧
      d.shared.free = m ∧ ∀ i, d.own i = if i ∈ l then .sampling else c.own i := by
  induction l generalizing c with
  | nil => exact ⟨c, rfl, hfree, fun i => rfl⟩
  | cons i l ih =>
    obtain ⟨hi, hl⟩ := List.nodup_cons.mp hl
    have hother : ∀ j ∈ l, Function.update c.own i .sampling j = .idle := by
      intro j hj
      rw [Function.update_of_ne (ne_of_mem_of_not_mem hj hi)]
      exact hidle j (List.mem_cons_of_mem i hj)
    obtain ⟨d, hd, hm, hown⟩ :=
      ih (c := ⟨⟨m + l.length⟩, Function.update c.own i .sampling⟩) hl hother rfl
    refine ⟨d, ?_, hm, fun j => ?_⟩
    · rw [samples_cons]
      exact run_append_eq_some.mpr ⟨_, run_sample (hidle i List.mem_cons_self) hfree, hd⟩
    · rw [hown j]
      by_cases hj : j = i
      · simp [hj]
      · simp [hj]

variable [Fintype ι]

/-- No interleaving of calls can leave the threads waiting for each other just if there are more
clients than threads. -/
theorem no_deadlock_iff (hn : 0 < n) :
    (∀ (h : History ι) c, run act (fresh n) h = some c → Stuck c → ∀ i, c.own i = .idle) ↔
      Fintype.card ι < n := by
  constructor
  · intro hall
    by_contra hcard
    obtain ⟨u, -, hu⟩ := Finset.exists_subset_card_eq (s := Finset.univ) (not_lt.mp hcard)
    have hlength : n = 0 + u.toList.length := by simp [hu]
    obtain ⟨c, hrun, hfree, hown⟩ :=
      run_samples (c := fresh n) u.nodup_toList (fun _ _ => rfl) hlength
    have hjammed : Jammed c := by
      refine ⟨hfree, fun i => ?_⟩
      rw [hown i]
      split
      · exact .inr rfl
      · exact .inl rfl
    obtain ⟨i, hi⟩ := Finset.card_pos.mp (hu ▸ hn)
    have hidle := hall _ c hrun hjammed.stuck i
    rw [hown i, if_pos (Finset.mem_toList.mpr hi)] at hidle
    cases hidle
  · intro hcard h c hrun hstuck i
    by_contra hi
    have hall := card_sampling hrun (jammed_of_stuck hstuck hi)
    have hle := Finset.card_le_univ (Finset.univ.filter fun i => c.own i = .sampling)
    omega

theorem no_deadlock_iff_three :
    (∀ (h : History (Fin 2)) c, run act (fresh 3) h = some c → Stuck c → ∀ i, c.own i = .idle) ↔
      Fintype.card (Fin 2) < 3 :=
  no_deadlock_iff (by decide)

/-- A deadlock is for good: whatever is called next, no call under way then goes on, and every
client stays with a thread that waits for another one. -/
theorem deadlock_lasts (hrun : run act (fresh n) h = some c) (hstuck : Stuck c) {i : ι}
    (hi : c.own i ≠ .idle) (hd : run act c g = some d) :
    d.own i = c.own i ∧ Stuck d ∧ (Finset.univ.filter fun i => d.own i = .sampling).card = n := by
  have hc : Jammed c := jammed_of_stuck hstuck hi
  obtain ⟨hjammed, hown⟩ := hc.lasts hd
  have hwaits : (c.own i).waits = true := (hc.2 i).resolve_left hi
  exact ⟨hown i hwaits, hjammed.stuck, card_sampling (run_append_eq_some.mpr ⟨c, hrun, hd⟩) hjammed⟩

/-- One client and one page of a collection are enough. -/
theorem deadlock_lasts_one : ∃ c d : State (Fin 2), run act (fresh 1) (samples [0]) = some c ∧
    Stuck c ∧ run act c [(1, .enter .tables)] = some d ∧ d.own 0 = c.own 0 ∧ Stuck d ∧
      (Finset.univ.filter fun i => d.own i = .sampling).card = 1 := by
  obtain ⟨c, hrun, hfree, hown⟩ := run_samples (c := (fresh 1 : State (Fin 2))) (m := 0)
    (List.nodup_singleton 0) (fun _ _ => rfl) rfl
  have hjammed : Jammed c := ⟨hfree, fun i => by rw [hown i]; split <;> simp [Place.waits, fresh]⟩
  have hbusy : c.own 0 ≠ .idle := by rw [hown 0]; simp
  have hidle : c.own 1 = .idle := hown 1
  have hnext : run act c [(1, .enter .tables)] =
      some ⟨c.shared, Function.update c.own 1 (.entering .tables)⟩ := by
    simp [run, step, act, hidle]
  exact ⟨c, _, hrun, hjammed.stuck, hnext, deadlock_lasts hrun hjammed.stuck hbusy hnext⟩

end Deadlock

end DearSql.Mongo.Pool
