import DearSql.RedisSelection

/-! The key helpers of a connection make no check of their own: they run on whatever the
last handle has selected, while `selectedDatabase()` only knows `open` and
`selectDatabase`. -/
namespace DearSql.Redis
open Effects Runs

section Helpers

/-- The key helpers of the connection. -/
inductive Helper
  | getKeys (pattern : Text) (limit : ℤ)
  | getKeyValue (key knownType : Text)
  | getKeyType (key : Text)
  | getKeyTTL (key : Text)

def Helper.op : Helper → Op
  | .getKeys p limit => .getKeys p limit
  | .getKeyValue k t => .getKeyValue k t
  | .getKeyType k => .getKeyType k
  | .getKeyTTL k => .getKeyTTL k

/-- A value asked for under a type there is no command for: nothing is sent. -/
def Helper.silent : Helper → Bool
  | .getKeyValue k t => t ≠ [] && valueCommand k t = none
  | _ => false

/-- The operation is no command that is harmful on some database: no `SELECT` or `RESET`,
no `MULTI`, and none after which the server sends unasked. -/
def Op.NoSelect (srv : Server) : Op → Prop
  | .execute _ cmd _ => ∀ i, (srv.reads (parseRedisCommand cmd)).Harmless i
  | _ => True

variable {srv : Server} {w : World} {h : Helper}

theorem quiet_helper (srv : Server) (h : Helper) (w : World) : Quiet w (h.op.run srv w) := by
  cases h with
  | getKeys p limit => exact quiet_getKeys p limit w
  | getKeyValue k t => exact quiet_getKeyValue k t w
  | getKeyType k => exact quiet_getKeyType k w
  | getKeyTTL k => exact quiet_getKeyTTL k w

theorem Quiet.trace_ne_nil {w w' : World} (hq : Quiet w w') (hw : w.trace ≠ []) :
    w'.trace ≠ [] := by
  obtain ⟨es, hes, -⟩ := hq.trace
  rw [hes]
  simp [hw]

theorem command_trace_ne_nil {α : Type} (argv : List Text) {f : Option Reply → M α}
    (hf : ∀ r, Leads Quiet (f r)) (w : World) :
    (after (command srv argv false >>= f) w).trace ≠ [] := by
  have hcmd : (after (command srv argv false) w).trace ≠ [] := by
    have : (after (command srv argv false) w).trace = w.trace ++ [⟨w.selected, argv, false⟩] := rfl
    simp [this]
  exact (hf _ _).trace_ne_nil hcmd

theorem scanPages_trace_ne_nil (pattern : Text) (limit : ℤ) (pages cursor : ℕ)
    (keys : List Text) (w : World) :
    (after (scanPages srv pattern limit pages cursor keys) w).trace ≠ [] := by
  cases pages with
  | zero => exact command_trace_ne_nil _ (fun _ => quiet_pure _) w
  | succ pages =>
    refine command_trace_ne_nil _ (fun reply => ?_) w
    split
    · dsimp only
      split_ifs
      · exact quiet_pure _
      · exact quiet_scanPages _ _ _ _ _
      · exact quiet_pure _
      · exact quiet_scanPages _ _ _ _ _
    · exact quiet_pure _

theorem getKeyType_trace_ne_nil (key : Text) (hc : w.conn.state.ctx = true) :
    (after (getKeyType srv key) w).trace ≠ [] := by
  unfold getKeyType
  rw [after_getState, if_neg (by simp [hc])]
  exact command_trace_ne_nil _ (fun _ => quiet_pure _) w

/-- On an open connection a helper sends a command, unless it has none to send. -/
theorem helper_trace_ne_nil (hc : w.conn.state.ctx = true) (hs : h.silent = false) :
    (h.op.run srv w).trace ≠ [] := by
  cases h with
  | getKeys p limit =>
    show (after (getKeys srv p limit) w).trace ≠ []
    unfold getKeys
    rw [after_getState, if_neg (by simp [hc]), after_bind]
    refine (quiet_keyDetails _ _).trace_ne_nil ?_
    unfold scanKeysLocked
    rw [after_bind_of (value_get w) (after_get w), if_neg (by simp [hc])]
    exact scanPages_trace_ne_nil _ _ _ _ _ _
  | getKeyValue k t =>
    show (after (getKeyValue srv k t) w).trace ≠ []
    unfold getKeyValue
    split_ifs with ht
    · rw [after_bind]
      exact (quiet_readValue _ _ _).trace_ne_nil (getKeyType_trace_ne_nil k hc)
    · unfold readValue
      rw [after_getState, if_neg (by simp [hc])]
      cases hv : valueCommand k t with
      | none => simp [Helper.silent, ht, hv] at hs
      | some argv =>
        rw [valueReply, hv]
        exact command_trace_ne_nil _ (fun _ => quiet_pure _) w
  | getKeyType k => exact getKeyType_trace_ne_nil k hc
  | getKeyTTL k =>
    show (after (getKeyTTL srv k) w).trace ≠ []
    unfold getKeyTTL
    rw [after_getState, if_neg (by simp [hc])]
    exact command_trace_ne_nil _ (fun _ => quiet_pure _) w

/-- Without a connection, or without a command to send, nothing happens. -/
theorem helper_trace_nil (ht : w.trace = []) (h' : w.conn.state.ctx = false ∨ h.silent = true) :
    (h.op.run srv w).trace = [] := by
  cases h with
  | getKeys p limit =>
    have hc : w.conn.state.ctx = false := by simpa [Helper.silent] using h'
    show (after (getKeys srv p limit) w).trace = []
    unfold getKeys
    rw [after_getState, if_pos (by simp [hc])]
    exact ht
  | getKeyValue k t =>
    have hread : ∀ t, w.conn.state.ctx = false ∨ valueCommand k t = none →
        (after (readValue srv k t) w).trace = [] := by
      intro t ht'
      unfold readValue
      rw [after_getState]
      split_ifs with hn
      · exact ht
      · have hv : valueCommand k t = none := ht'.resolve_left (by simpa using hn)
        rw [valueReply, hv]
        exact ht
    show (after (getKeyValue srv k t) w).trace = []
    unfold getKeyValue
    split_ifs with hk
    · have hc : w.conn.state.ctx = false := by simpa [Helper.silent, hk] using h'
      have htype : after (getKeyType srv k) w = w := by
        unfold getKeyType
        rw [after_getState, if_pos (by simp [hc])]
        rfl
      rw [after_bind_of rfl htype]
      exact hread _ (Or.inl hc)
    · apply hread
      rcases h' with hc | hsil
      · exact Or.inl hc
      · simp only [Helper.silent, Bool.and_eq_true, decide_eq_true_eq] at hsil
        exact Or.inr hsil.2
  | getKeyType k =>
    have hc : w.conn.state.ctx = false := by simpa [Helper.silent] using h'
    show (after (getKeyType srv k) w).trace = []
    unfold getKeyType
    rw [after_getState, if_pos (by simp [hc])]
    exact ht
  | getKeyTTL k =>
    have hc : w.conn.state.ctx = false := by simpa [Helper.silent] using h'
    show (after (getKeyTTL srv k) w).trace = []
    unfold getKeyTTL
    rw [after_getState, if_pos (by simp [hc])]
    exact ht

/-- Where the copy is right, a helper acts on `selectedDatabase()` exactly when the two
copies agree, if it acts at all. -/
theorem helper_on_selected (hs : (shadow w).Sound) (ht : w.trace = []) :
    (∀ e ∈ (h.op.run srv w).trace, e.db = w.conn.selectedDb_) ↔
      w.conn.state.ctx = false ∨ h.silent = true ∨
        w.conn.state.selectedDb = w.conn.selectedDb_ := by
  by_cases hc : w.conn.state.ctx = false
  · simp [helper_trace_nil ht (Or.inl hc), hc]
  by_cases hq : h.silent = true
  · simp [helper_trace_nil ht (Or.inr hq), hq]
  rw [Bool.not_eq_false] at hc
  rw [Bool.not_eq_true] at hq
  have hsel : w.selected = w.conn.state.selectedDb := hs _ (if_pos hc)
  obtain ⟨es, hes, hall⟩ := (quiet_helper srv h w).trace
  rw [ht, List.nil_append] at hes
  have hne : es ≠ [] := hes ▸ helper_trace_ne_nil hc hq
  rw [hes]
  simp only [hc, hq, Bool.true_eq_false, Bool.false_eq_true, false_or]
  constructor
  · intro h'
    obtain ⟨e, es', rfl⟩ := List.exists_cons_of_ne_nil hne
    rw [← hsel, ← (hall e (by simp)).1]
    exact h' e (by simp)
  · intro h' e he
    rw [(hall e he).1, hsel, h']

theorem undisturbed_of_noSelect {cs : List Call} (h : ∀ c ∈ cs, c.op.NoSelect srv) :
    Along (step srv) (Undisturbed srv) w cs := by
  refine (along_of_forall h).mono fun w c hc i cmd errstr hop _ _ _ => ?_
  rw [hop] at hc
  exact hc i

/-- After any history whose typed commands are harmless, a key helper acts on
`selectedDatabase()` exactly when it sends nothing or no handle has moved the
selection away. -/
theorem helper_on_selected_iff (srv : Server) (info : ConnectionInfo) (cs : List Call)
    (hcs : Along (step srv) (Undisturbed srv) { conn := { info := info } } cs) (h : Helper)
    (replies pushed : List (Option Reply)) :
    let w := final (step srv) { conn := { info := info } } cs
    (∀ e ∈ (step srv w ⟨h.op, replies, pushed⟩).trace, e.db = w.conn.selectedDb_) ↔
      w.conn.state.ctx = false ∨ h.silent = true ∨
        w.conn.state.selectedDb = w.conn.selectedDb_ := by
  intro w
  have hstep : ∀ w c, Steady w → Undisturbed srv w c → Steady (step srv w c) :=
    fun _ _ hs hu => steady_step hs hu
  have hs : Steady w := Along.invariant hstep (steady_init info) hcs
  exact @helper_on_selected srv (w.ready ⟨h.op, replies, pushed⟩) h (hs.ready _).sound rfl

theorem helper_after_open :
    (step plainServer (final (step plainServer) {} [opened])
        ⟨(Helper.getKeyType ['k']).op, [okReply], []⟩).trace ≠ [] ∧
      ∀ e ∈ (step plainServer (final (step plainServer) {} [opened])
        ⟨(Helper.getKeyType ['k']).op, [okReply], []⟩).trace,
        e.db = (final (step plainServer) {} [opened]).conn.selectedDb_ :=
  ⟨by decide,
    (helper_on_selected_iff plainServer {} [opened]
      (undisturbed_of_noSelect (by simp [opened, Op.NoSelect]))
      (.getKeyType ['k']) [okReply] []).mpr (Or.inr (Or.inr (by decide)))⟩

/-- A read through the handle of database 1 takes the helpers along, while
`selectedDatabase()` still says 0. -/
theorem helper_follows_handle :
    (∀ c ∈ [opened, typed 1 "GET k".toList [okReply, okReply]], c.op.NoSelect plainServer) ∧
      (final (step plainServer) {}
        [opened, typed 1 "GET k".toList [okReply, okReply]]).conn.selectedDb_ = 0 ∧
      ¬ ∀ e ∈ (step plainServer (final (step plainServer) {}
          [opened, typed 1 "GET k".toList [okReply, okReply]])
        ⟨(Helper.getKeyType ['k']).op, [okReply], []⟩).trace, e.db = 0 := by
  refine ⟨?_, by decide, ?_⟩
  · have hget : plainServer.reads (parseRedisCommand "GET k".toList) = .plain := by decide
    intro c hc
    simp only [List.mem_cons, List.not_mem_nil, or_false] at hc
    rcases hc with rfl | rfl
    · trivial
    · intro i
      rw [hget]
      trivial
  · decide

end Helpers
end DearSql.Redis
