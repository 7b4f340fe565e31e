import DearSql.Interleavings
import DearSql.Text

/-! The directory of the Oracle client, which is kept once it is found, while threads look for it,
install the client and move the root it is under. The lock of the root is held for one access at a
time, so such an access is one event. -/
namespace DearSql.Oracle.Installer
open Interleavings

abbrev Path := List Text

/-- What the threads share; a path of no parts is none. -/
structure Directory where
  installRoot : Path := []
  cachedDir : Path := []
  cacheMutex : Bool := false
  deriving DecidableEq

/-- Where a thread is in a call: it holds the lock of the cache, and has read the base directory
there, or it has moved the root and the cache is still to be cleared. -/
inductive Place
  | idle
  | looking
  | based (base : Path)
  | clearing
  deriving DecidableEq

/-- `entry` is what the file system shows of the base directory: the directory that is expected,
or else one of the same kind. -/
inductive Event
  | enter
  | answerCached
  | readBase
  | scan (entry : Option Text)
  | setRoot (dir : Path)
  | clear
  | forget
  deriving DecidableEq

variable {ι : Type*} [DecidableEq ι] {home : Path} {expected : Text}

/-- `home` is where the client goes while no root is set. -/
def Directory.baseDir (home : Path) (s : Directory) : Path :=
  if s.installRoot ≠ [] then s.installRoot else home

/-- `installDir` is `enter`, then `answerCached`, or `readBase` and `scan`; `setInstallRoot` is
`setRoot` and `clear`; `forget` is what `install` does with the cache. -/
def act (home : Path) : Event → Directory → Place → Option (Directory × Place)
  | .enter, s, .idle => if s.cacheMutex then none else some ({ s with cacheMutex := true }, .looking)
  | .answerCached, s, .looking =>
    if s.cachedDir = [] then none else some ({ s with cacheMutex := false }, .idle)
  | .readBase, s, .looking =>
    if s.cachedDir = [] then some (s, .based (s.baseDir home)) else none
  | .scan entry, s, .based base =>
    let cachedDir := match entry with
      | some name => base ++ [name]
      | none => s.cachedDir
    some ({ s with cachedDir := cachedDir, cacheMutex := false }, .idle)
  | .setRoot dir, s, .idle => some ({ s with installRoot := dir }, .clearing)
  | .clear, s, .clearing => if s.cacheMutex then none else some ({ s with cachedDir := [] }, .idle)
  | .forget, s, .idle => if s.cacheMutex then none else some ({ s with cachedDir := [] }, .idle)
  | _, _, _ => none

/-- What `installDir` answers, where the event ends a call of it. -/
def answer (expected : Text) : Event → Directory → Place → Option Path
  | .answerCached, s, .looking => if s.cachedDir = [] then none else some s.cachedDir
  | .scan entry, _, .based base => some (base ++ [entry.getD expected])
  | _, _, _ => none

abbrev State (ι : Type*) := Config ι Directory Place

abbrev History (ι : Type*) := List (ι × Event)

def fresh : State ι := ⟨{}, fun _ => .idle⟩

def Place.holds : Place → Bool
  | .looking | .based _ => true
  | .idle | .clearing => false

/-- The directory is right below the base. -/
def InBase (home : Path) (s : Directory) (dir : Path) : Prop :=
  ∃ name, dir = s.baseDir home ++ [name]

/-- What is kept, and what a thread has read, is of the root there is, unless a thread has moved
the root and has not cleared the cache. -/
structure Sound (home : Path) (c : State ι) : Prop where
  locked : Owned Directory.cacheMutex Place.holds c
  cached : (∃ i, c.own i = .clearing) ∨ c.shared.cachedDir = [] ∨
    InBase home c.shared c.shared.cachedDir
  based : ∀ i base, c.own i = .based base →
    (∃ j, c.own j = .clearing) ∨ base = c.shared.baseDir home

section Runs

variable {c d : State ι} {x : ι × Event} {h : History ι} {i : ι} {dir : Path}

theorem owned (hrun : run (act home) (fresh : State ι) h = some c) :
    Owned Directory.cacheMutex Place.holds c := by
  refine owned_run ?_ ⟨none, rfl, by simp [fresh, Place.holds]⟩ hrun
  intro e s k s' k' ha
  unfold act at ha
  split at ha <;> grind [Place.holds]

variable {e : Event} {s s' : Directory} {k k' : Place}

theorem act_clear (ha : act home e s .clearing = some (s', k')) :
    s.cacheMutex = false ∧ s' = { s with cachedDir := [] } ∧ k' = .idle := by
  cases e <;> simp_all [act]

theorem act_root (ha : act home e s k = some (s', k')) :
    s'.baseDir home = s.baseDir home ∨ k' = .clearing := by
  unfold act at ha
  split at ha <;> grind [Directory.baseDir]

theorem act_cached (ha : act home e s k = some (s', k')) :
    s'.cachedDir = s.cachedDir ∨ s'.cachedDir = [] ∨
      ∃ base name, k = .based base ∧ s'.cachedDir = base ++ [name] := by
  unfold act at ha
  split at ha <;> grind

theorem act_based {base : Path} (ha : act home e s k = some (s', .based base)) :
    base = s.baseDir home := by
  unfold act at ha
  split at ha <;> grind

theorem Sound.step (hc : Sound home c) (hstep : step (act home) c x = some d)
    (hd : Owned Directory.cacheMutex Place.holds d) : Sound home d := by
  obtain ⟨s, k, ha, rfl⟩ := step_eq_some.mp hstep
  obtain ⟨i, e⟩ := x
  dsimp only at ha hd
  obtain hi | hi := eq_or_ne (c.own i) .clearing
  · -- the lock is free, so no other thread has read the base directory
    rw [hi] at ha
    obtain ⟨hfree, rfl, rfl⟩ := act_clear ha
    refine ⟨hd, .inr (.inl rfl), fun j base hj => ?_⟩
    obtain rfl | hne := eq_or_ne j i
    · simp at hj
    · dsimp only at hj
      rw [Function.update_of_ne hne] at hj
      exact absurd (hc.locked.taken (i := j) (by rw [hj]; rfl)) (by simp [hfree])
  by_cases hclearing : ∃ j, c.own j = .clearing
  · have hstays : ∃ j, Function.update c.own i k j = .clearing := by
      obtain ⟨j, hj⟩ := hclearing
      have hne : j ≠ i := fun he => hi (he ▸ hj)
      exact ⟨j, by rw [Function.update_of_ne hne, hj]⟩
    exact ⟨hd, .inl hstays, fun _ _ _ => .inl hstays⟩
  obtain hroot | rfl := act_root ha
  · have hcached := hc.cached.resolve_left hclearing
    have hbased : ∀ j base, c.own j = .based base → base = c.shared.baseDir home :=
      fun j base hj => (hc.based j base hj).resolve_left hclearing
    refine ⟨hd, .inr ?_, fun j base hj => .inr ?_⟩
    · simp only [InBase, hroot]
      obtain hsame | hnone | ⟨base, name, hi, hname⟩ := act_cached ha
      · rw [hsame]
        exact hcached
      · exact .inl hnone
      · exact .inr ⟨name, by rw [hname, hbased i base hi]⟩
    · rw [hroot]
      obtain rfl | hne := eq_or_ne j i
      · obtain rfl : k = .based base := by simpa using hj
        exact act_based ha
      · exact hbased j base (by simpa [Function.update_of_ne hne] using hj)
  · have hself : ∃ j, Function.update c.own i .clearing j = .clearing :=
      ⟨i, Function.update_self i .clearing c.own⟩
    exact ⟨hd, .inl hself, fun _ _ _ => .inl hself⟩

theorem sound (hrun : run (act home) (fresh : State ι) h = some c) : Sound home c := by
  induction h using List.reverseRecOn generalizing c with
  | nil =>
    obtain rfl := Option.some.inj hrun
    exact ⟨owned hrun, .inr (.inl rfl), by simp [fresh]⟩
  | append_singleton h x ih =>
    obtain ⟨m, hm, hx⟩ := run_concat_eq_some.mp hrun
    exact (ih hm).step hx (owned hrun)

/-- While no thread is between moving the root and clearing the cache, whatever a call of
`installDir` answers is right below the base directory there is. -/
theorem answer_in_base (hrun : run (act home) (fresh : State ι) h = some c)
    (hquiet : ∀ j, c.own j ≠ .clearing)
    (hanswer : answer expected e c.shared (c.own i) = some dir) : InBase home c.shared dir := by
  have hc := sound hrun
  have hnone : ¬∃ j, c.own j = .clearing := fun ⟨j, hj⟩ => hquiet j hj
  unfold answer at hanswer
  split at hanswer
  · split_ifs at hanswer with hcached
    obtain rfl := Option.some.inj hanswer
    exact (hc.cached.resolve_left hnone).resolve_left hcached
  · next base hi =>
    obtain rfl := Option.some.inj hanswer
    exact ⟨_, by rw [(hc.based i base hi).resolve_left hnone]⟩
  · cases hanswer

end Runs

/-- A thread has read the old base directory when another moves the root; what it keeps is cleared
before the next one looks. -/
def movedRoot : History Bool :=
  [(false, .enter), (false, .readBase), (true, .setRoot [['b']]), (false, .scan (some ['c'])),
    (true, .clear), (false, .enter), (false, .readBase)]

theorem answer_in_base_moved : ∃ c, run (act [['a']]) fresh movedRoot = some c ∧
    InBase [['a']] c.shared [['b'], ['c']] := by
  have hrun : run (act [['a']]) fresh movedRoot = some _ := rfl
  exact ⟨_, hrun, answer_in_base (i := false) hrun (by decide)
    (rfl : answer ['x'] (.scan (some ['c'])) _ _ = some _)⟩

end DearSql.Oracle.Installer
