import Mathlib

/-! A client keeps a copy of one value that lives on a server. Before it acts for a
target it switches the server's value there unless its copy already says so; the
action itself may move the value, and the client may or may not notice. -/
namespace DearSql

/-- The client's copy (`none` when it knows nothing) beside the server's value. -/
structure Shadow (κ : Type*) where
  cached : Option κ
  actual : κ

namespace Shadow
variable {κ : Type*}

/-- Whatever the copy says is what the server has. -/
def Sound (s : Shadow κ) : Prop := ∀ k, s.cached = some k → s.actual = k

def record (k : κ) : Shadow κ := ⟨some k, k⟩

/-- An action leaves the value `v`; a client that noticed drops its copy. -/
def act (s : Shadow κ) (v : κ) (noticed : Bool) : Shadow κ :=
  ⟨if noticed then none else s.cached, v⟩

theorem record_sound (k : κ) : (record k).Sound := fun _ h => Option.some.inj h

theorem act_sound {s : Shadow κ} {v : κ} {noticed : Bool} (hs : s.Sound)
    (h : noticed = true ∨ v = s.actual) : (s.act v noticed).Sound := by
  intro k hk
  rcases h with rfl | rfl
  · simp [act] at hk
  · cases noticed with
    | true => simp [act] at hk
    | false => exact hs k hk

variable [DecidableEq κ]

/-- Switch to `k` unless the copy says `k`; the server accepts the switch or not. -/
def ensure (s : Shadow κ) (k : κ) (accepted : Bool) : Shadow κ :=
  if s.cached = some k then s else if accepted then record k else s

/-- The client goes on to act for `k`. -/
def Ready (s : Shadow κ) (k : κ) (accepted : Bool) : Prop :=
  s.cached = some k ∨ accepted = true

theorem ensure_of_cached {s : Shadow κ} {k : κ} {accepted : Bool} (h : s.cached = some k) :
    s.ensure k accepted = s := if_pos h

theorem ensure_sound {s : Shadow κ} {k : κ} {accepted : Bool} (hs : s.Sound) :
    (s.ensure k accepted).Sound := by
  unfold ensure
  split_ifs
  · exact hs
  · exact record_sound k
  · exact hs

/-- A sound client that goes on to act acts on its target. -/
theorem ensure_actual {s : Shadow κ} {k : κ} {accepted : Bool} (hs : s.Sound)
    (h : s.Ready k accepted) : (s.ensure k accepted).actual = k := by
  by_cases hc : s.cached = some k
  · rw [ensure_of_cached hc]
    exact hs k hc
  · have ha : accepted = true := h.resolve_left hc
    simp [ensure, hc, ha, record]

theorem ensure_cached {s : Shadow κ} {k : κ} {accepted : Bool}
    (h : s.Ready k accepted) : (s.ensure k accepted).cached = some k := by
  by_cases hc : s.cached = some k
  · rw [ensure_of_cached hc]
    exact hc
  · have ha : accepted = true := h.resolve_left hc
    simp [ensure, hc, ha, record]

/-- One guarded action: the switch, then an action that leaves the value `v`. -/
theorem ensure_act_sound {s : Shadow κ} {k v : κ} {accepted noticed : Bool} (hs : s.Sound)
    (hr : s.Ready k accepted) (h : noticed = true ∨ v = k) :
    ((s.ensure k accepted).act v noticed).Sound := by
  apply act_sound (ensure_sound hs)
  rwa [ensure_actual hs hr]

end Shadow
end DearSql
