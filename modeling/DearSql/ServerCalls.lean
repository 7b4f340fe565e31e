import DearSql.Effects

/-! Computations that call a server, where any call may fail. A computation that makes `n`
calls when none fails is described by `n` and by its value in that case; how it goes on
after a failed call does not matter to whether a call has failed. -/
namespace DearSql.ServerCalls
open Effects

/-- How the calls still to come end, `true` where one goes through (all of them when the list
is at its end), and whether one has failed. -/
structure Network where
  pending : List Bool
  failed : Bool := false
  deriving DecidableEq

abbrev M := StateM Network

variable {α β ε : Type} {m : M α} {f : α → M β} {n k : ℕ} {a : α} {b : β} {s : Network}

/-- A call whose answer is `a`. -/
def call (a : α) : M (Option α) := modifyGet fun s =>
  match s.pending with
  | [] => (some a, s)
  | true :: rest => (some a, { s with pending := rest })
  | false :: rest => (none, ⟨rest, true⟩)

/-- What fails without a call, as on a closed session. -/
def refuse : M (Option α) := modifyGet fun s => (none, { s with failed := true })

/-- The next `n` calls go through. -/
def Through (n : ℕ) (pending : List Bool) : Prop := ∀ ok ∈ pending.take n, ok = true

instance (pending : List Bool) : Decidable (Through n pending) :=
  inferInstanceAs (Decidable (∀ ok ∈ pending.take n, ok = true))

def Stays (s s' : Network) : Prop := s.failed = true → s'.failed = true

theorem Stays.refl (s : Network) : Stays s s := id

theorem Stays.trans (s₁ s₂ s₃ : Network) (h : Stays s₁ s₂) (h' : Stays s₂ s₃) : Stays s₁ s₃ :=
  h' ∘ h

/-- Without a failure `m` makes `n` calls and returns `a`; with one it is on record. -/
structure Follows (m : M α) (n : ℕ) (a : α) : Prop where
  done : ∀ s, Through n s.pending →
    value m s = a ∧ after m s = { s with pending := s.pending.drop n }
  failed : ∀ s, ¬Through n s.pending → (after m s).failed = true

theorem through_add : ∀ {n k : ℕ} {l : List Bool},
    Through (n + k) l ↔ Through n l ∧ Through k (l.drop n) := by
  intro n k l
  simp only [Through, List.take_add, List.mem_append, or_imp, forall_and]

theorem follows_pure (a : α) : Follows (pure a) 0 a :=
  ⟨fun s _ => ⟨rfl, by simp⟩, fun s h => absurd (by simp [Through]) h⟩

theorem follows_call (a : α) : Follows (call a) 1 (some a) := by
  constructor
  · intro s h
    rcases s with ⟨_ | ⟨ok, rest⟩, failed⟩
    · exact ⟨rfl, rfl⟩
    · cases ok with
      | true => exact ⟨rfl, rfl⟩
      | false => exact absurd (h false (by simp)) (by simp)
  · intro s h
    rcases s with ⟨_ | ⟨ok, rest⟩, failed⟩
    · exact absurd (by simp [Through]) h
    · cases ok with
      | true => exact absurd (by simp [Through]) h
      | false => rfl

theorem stays_pure (a : α) : Leads Stays (pure a : M α) := leads_pure Stays.refl a

theorem stays_call (a : α) : Leads Stays (call a) := by
  intro s h
  rcases s with ⟨_ | ⟨ok, rest⟩, failed⟩
  · exact h
  · cases ok with
    | true => exact h
    | false => rfl

theorem stays_refuse : Leads Stays (refuse : M (Option α)) := fun _ _ => rfl

theorem stays_bind (hm : Leads Stays m) (hf : ∀ a, Leads Stays (f a)) :
    Leads Stays (m >>= f) := hm.bind Stays.trans hf

theorem stays_map (hm : Leads Stays m) (g : α → β) : Leads Stays (g <$> m) := fun s => hm s

theorem stays_mapM {l : List α} (hf : ∀ a, Leads Stays (f a)) : Leads Stays (l.mapM f) :=
  leads_mapM Stays.refl Stays.trans l hf

theorem Follows.bind (hm : Follows m n a) (stays : ∀ a, Leads Stays (f a))
    (hf : Follows (f a) k b) : Follows (m >>= f) (n + k) b := by
  constructor
  · intro s h
    obtain ⟨hn, hk⟩ := through_add.mp h
    obtain ⟨hv, hs⟩ := hm.done s hn
    rw [value_bind, after_bind, hv, hs]
    obtain ⟨hv', hs'⟩ := hf.done { s with pending := s.pending.drop n } hk
    exact ⟨hv', by rw [hs', List.drop_drop]⟩
  · intro s h
    rw [after_bind]
    by_cases hn : Through n s.pending
    · obtain ⟨hv, hs⟩ := hm.done s hn
      rw [hv, hs]
      exact hf.failed _ fun hk => h (through_add.mpr ⟨hn, hk⟩)
    · exact stays _ _ (hm.failed s hn)

theorem Follows.map (hm : Follows m n a) (g : α → β) : Follows (g <$> m) n (g a) :=
  ⟨fun s h => ⟨congrArg g (hm.done s h).1, (hm.done s h).2⟩, hm.failed⟩

theorem follows_mapM {g : α → β} (l : List α) (stays : ∀ a, Leads Stays (f a))
    (hf : ∀ a, Follows (f a) k (g a)) : Follows (l.mapM f) (l.length * k) (l.map g) := by
  induction l with
  | nil => simpa using follows_pure []
  | cons a l ih =>
    rw [List.mapM_cons, List.length_cons, Nat.succ_mul, Nat.add_comm]
    have tail (b : β) : Follows (do let bs ← l.mapM f; pure (b :: bs)) (l.length * k)
        (b :: l.map g) := ih.map (b :: ·)
    exact (hf a).bind (fun b => stays_map (stays_mapM stays) (b :: ·)) (tail (g a))

/-- A failed call makes the computation throw, and what it returns is the truth. -/
def Reports (m : M (Except ε α)) (truth : α) (pending : List Bool) : Prop :=
  ((after m ⟨pending, false⟩).failed = true → ∃ e, value m ⟨pending, false⟩ = .error e) ∧
    ∀ a, value m ⟨pending, false⟩ = .ok a → a = truth

/-- A computation that never throws reports exactly when there is nothing to report. -/
theorem reports_iff {m : M (Except ε α)} {truth : α} (h : Follows m n (.ok a))
    (never : ∀ s, ∃ v, value m s = .ok v) (pending : List Bool) :
    Reports m truth pending ↔ Through n pending ∧ a = truth := by
  constructor
  · rintro ⟨hfail, hok⟩
    by_cases ht : Through n pending
    · exact ⟨ht, hok a (h.done _ ht).1⟩
    · obtain ⟨e, he⟩ := hfail (h.failed _ ht)
      obtain ⟨v, hv⟩ := never ⟨pending, false⟩
      rw [he] at hv
      cases hv
  · rintro ⟨ht, rfl⟩
    obtain ⟨hv, hs⟩ := h.done ⟨pending, false⟩ ht
    refine ⟨fun hf => ?_, fun v hv' => ?_⟩
    · rw [hs] at hf
      cases hf
    · rw [hv] at hv'
      exact (Except.ok.inj hv').symm

end DearSql.ServerCalls
