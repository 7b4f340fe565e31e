import DearSql.RedisPipelines
import DearSql.Runs
import DearSql.Shadow

/-! Which logical database the commands of a connection run on. `RedisState::selectedDb`
is the client's copy of the server's selection; a second one, `selectedDb_`, only
follows `open` and `selectDatabase`. -/
namespace DearSql.Redis
open Effects Runs

/-- Nothing but commands of the client's own: they find the selection there was, and
outside `MULTI` the server's side stays as it was. -/
structure OwnOnly (w w' : World) : Prop where
  conn : w'.conn = w.conn
  selected : w'.selected = w.selected
  session : w.queue = none → w'.toSession = w.toSession
  trace : ∃ es, w'.trace = w.trace ++ es ∧ ∀ e ∈ es, e.db = w.selected ∧ e.check = false

theorem OwnOnly.refl (w : World) : OwnOnly w w := ⟨rfl, rfl, fun _ => rfl, [], by simp, by simp⟩

theorem OwnOnly.trans (a b c : World) (h : OwnOnly a b) (h' : OwnOnly b c) : OwnOnly a c := by
  obtain ⟨es, hes, hall⟩ := h.trace
  obtain ⟨fs, hfs, hall'⟩ := h'.trace
  refine ⟨h'.conn.trans h.conn, h'.selected.trans h.selected, fun hq => ?_, es ++ fs, ?_, ?_⟩
  · have hs := h.session hq
    exact (h'.session (by rw [hs, hq])).trans hs
  · rw [hfs, hes, List.append_assoc]
  · intro e he
    rcases List.mem_append.mp he with he | he
    · exact hall e he
    · exact h.selected ▸ hall' e he

/-- The same, with every reply read. -/
structure Quiet (w w' : World) : Prop extends OwnOnly w w' where
  unread : w.unread = [] → w'.unread = []

theorem Quiet.refl (w : World) : Quiet w w := ⟨OwnOnly.refl w, id⟩

theorem Quiet.trans (a b c : World) (h : Quiet a b) (h' : Quiet b c) : Quiet a c :=
  ⟨OwnOnly.trans a b c h.toOwnOnly h'.toOwnOnly, fun hu => h'.unread (h.unread hu)⟩

def Own (argv : List Text) : Prop := ∃ w args, argv = w :: args ∧ w ∈ ownCommands

section Quiet
variable {srv : Server} {α : Type}

theorem run_idle {s : Session} (h : s.queue = none) (argv : List Text) (r : Option Reply) :
    s.run srv argv r = if accepted r then s.obey (srv.reads argv) else s := by
  simp [Session.run, h]

theorem run_own {argv : List Text} (h : Own argv) (s : Session) (r : Option Reply) :
    (s.run srv argv r).selected = s.selected ∧ (s.queue = none → s.run srv argv r = s) := by
  obtain ⟨w, args, rfl, hw⟩ := h
  have hplain := srv.reads_own w args hw
  constructor
  · cases hq : s.queue with
    | none =>
      rw [run_idle hq, hplain]
      split_ifs <;> rfl
    | some q =>
      simp only [Session.run, hq, hplain]
      split_ifs <;> rfl
  · intro hq
    rw [run_idle hq, hplain]
    split_ifs <;> rfl

theorem own_append {argv : List Text} (h : Own argv) : Leads OwnOnly (append srv argv false) := by
  intro w
  obtain ⟨hsel, hsame⟩ := @run_own srv argv h w.toSession w.replies.head?.join
  exact ⟨rfl, hsel, hsame, [⟨w.selected, argv, false⟩], rfl, by simp⟩

theorem own_getReply : Leads OwnOnly getReply := fun _ =>
  ⟨rfl, rfl, fun _ => rfl, [], (List.append_nil _).symm, by simp⟩

theorem own_bind {β : Type} {t : M α} {f : α → M β} (ht : Leads OwnOnly t)
    (hf : ∀ a, Leads OwnOnly (f a)) : Leads OwnOnly (t >>= f) := ht.bind OwnOnly.trans hf

theorem quiet_pure (a : α) : Leads Quiet (pure a : M α) := leads_pure Quiet.refl a

theorem quiet_bind {β : Type} {t : M α} {f : α → M β} (ht : Leads Quiet t)
    (hf : ∀ a, Leads Quiet (f a)) : Leads Quiet (t >>= f) := ht.bind Quiet.trans hf

theorem quiet_getState : Leads Quiet getState := fun w => Quiet.refl w

theorem quiet_command {argv : List Text} (h : Own argv) :
    Leads Quiet (command srv argv false) := fun w =>
  ⟨own_bind (own_append h) (fun _ => own_getReply) w, (paired_command argv false w).unread_nil⟩

theorem own_scan (cursor : ℕ) (pattern : Text) : Own (scanCommand cursor pattern) :=
  ⟨_, _, rfl, by decide⟩

theorem quiet_scanPages (pattern : Text) (limit : ℤ) (pages cursor : ℕ) (keys : List Text) :
    Leads Quiet (scanPages srv pattern limit pages cursor keys) := by
  induction pages generalizing cursor keys with
  | zero => exact quiet_bind (quiet_command (own_scan _ _)) fun _ => quiet_pure _
  | succ pages ih =>
    refine quiet_bind (quiet_command (own_scan _ _)) fun reply => ?_
    split
    · dsimp only
      split_ifs
      · exact quiet_pure _
      · exact ih _ _
      · exact quiet_pure _
      · exact ih _ _
    · exact quiet_pure _

theorem quiet_scanKeysLocked (pattern : Text) (limit : ℤ) :
    Leads Quiet (scanKeysLocked srv pattern limit) := by
  refine quiet_bind (fun w => Quiet.refl w) fun w => ?_
  split_ifs
  · exact quiet_pure _
  · exact quiet_scanPages _ _ _ _ _

theorem own_previewCommand (key : RedisKey) : Own (previewCommand key) := by
  unfold previewCommand
  split_ifs <;> exact ⟨_, _, rfl, by decide⟩

theorem own_keyDetails (keyNames : List Text) : Leads OwnOnly (keyDetails srv keyNames) := by
  refine own_bind (leads_forM OwnOnly.refl OwnOnly.trans _ fun n => ?_) fun _ =>
    own_bind (leads_mapM OwnOnly.refl OwnOnly.trans _ fun n => ?_) fun keys =>
      own_bind
        (leads_forM OwnOnly.refl OwnOnly.trans _ fun k => own_append (own_previewCommand k))
        fun _ => leads_mapM OwnOnly.refl OwnOnly.trans _ fun k => ?_
  · exact own_bind (own_append ⟨_, _, rfl, by decide⟩) fun _ =>
      own_bind (own_append ⟨_, _, rfl, by decide⟩) fun _ => own_append ⟨_, _, rfl, by decide⟩
  · exact own_bind own_getReply fun _ => own_bind own_getReply fun _ =>
      own_bind own_getReply fun _ => leads_pure OwnOnly.refl _
  · exact own_bind own_getReply fun _ => leads_pure OwnOnly.refl _

theorem quiet_keyDetails (keyNames : List Text) : Leads Quiet (keyDetails srv keyNames) := fun w =>
  ⟨own_keyDetails keyNames w, (paired_keyDetails keyNames w).unread_nil⟩

theorem quiet_authenticate : Leads Quiet (authenticate srv) := by
  refine quiet_bind (fun w => Quiet.refl w) fun w => ?_
  dsimp only
  split_ifs
  · exact quiet_pure _
  · exact quiet_bind (quiet_command ⟨_, _, rfl, by decide⟩) fun _ => quiet_pure _
  · exact quiet_bind (quiet_command ⟨_, _, rfl, by decide⟩) fun _ => quiet_pure _

theorem quiet_getKeys (pattern : Text) (limit : ℤ) : Leads Quiet (getKeys srv pattern limit) := by
  refine quiet_bind quiet_getState fun st => ?_
  split_ifs
  · exact quiet_pure _
  · exact quiet_bind (quiet_scanKeysLocked _ _) fun _ => quiet_keyDetails _

theorem quiet_getKeyType (key : Text) : Leads Quiet (getKeyType srv key) := by
  refine quiet_bind quiet_getState fun st => ?_
  split_ifs
  · exact quiet_pure _
  · exact quiet_bind (quiet_command ⟨_, _, rfl, by decide⟩) fun _ => quiet_pure _

theorem quiet_getKeyTTL (key : Text) : Leads Quiet (getKeyTTL srv key) := by
  refine quiet_bind quiet_getState fun st => ?_
  split_ifs
  · exact quiet_pure _
  · exact quiet_bind (quiet_command ⟨_, _, rfl, by decide⟩) fun _ => quiet_pure _

theorem own_valueCommand {key type : Text} {argv : List Text}
    (h : valueCommand key type = some argv) : Own argv := by
  unfold valueCommand at h
  split_ifs at h
  all_goals
    obtain rfl := Option.some.inj h
    exact ⟨_, _, rfl, by decide⟩

theorem quiet_readValue (key type : Text) : Leads Quiet (readValue srv key type) := by
  have hreply : Leads Quiet (valueReply srv key type) := by
    unfold valueReply
    split
    · exact quiet_command (own_valueCommand ‹_›)
    · exact quiet_pure _
  refine quiet_bind quiet_getState fun st => ?_
  split_ifs
  · exact quiet_pure _
  · exact quiet_bind hreply fun _ => quiet_pure _

theorem quiet_getKeyValue (key knownType : Text) :
    Leads Quiet (getKeyValue srv key knownType) := by
  unfold getKeyValue
  split_ifs
  · exact quiet_bind (quiet_getKeyType key) fun type => quiet_readValue key type
  · exact quiet_readValue key knownType

end Quiet

/-- `selectedDb` beside the server's selection; without a context it says nothing. -/
def shadow (w : World) : Shadow ℤ where
  cached := if w.conn.state.ctx then some w.conn.state.selectedDb else none
  actual := w.selected

/-- Nothing is queued, nothing comes unasked and nothing is left to read. -/
structure World.Calm (w : World) : Prop where
  queue : w.queue = none
  pushes : w.pushes = false
  unread : w.unread = []

/-- What holds of the connection between two operations. -/
structure Steady (w : World) : Prop extends w.Calm where
  sound : (shadow w).Sound

def At (i : ℤ) (w : World) : Prop := w.conn.state.ctx = true ∧ w.conn.state.selectedDb = i

/-- Quiet, once the copy names database `i`. -/
def QuietAt (i : ℤ) (w w' : World) : Prop := At i w → Quiet w w'

section Ensure
variable {srv : Server} {i : ℤ} {α β : Type}

theorem cached_iff {w : World} : (shadow w).cached = some i ↔ At i w := by
  unfold shadow At
  dsimp only
  split_ifs with h
  · simp [h]
  · simp [h]

theorem Quiet.at {w w' : World} (h : Quiet w w') (hw : At i w) : At i w' := by
  unfold At
  rw [h.conn]
  exact hw

theorem Quiet.shadow {w w' : World} (h : Quiet w w') : shadow w' = shadow w := by
  unfold Redis.shadow
  rw [h.conn, h.selected]

theorem Quiet.calm {w w' : World} (h : Quiet w w') (hw : w.Calm) : w'.Calm := by
  have hs := h.session hw.queue
  exact ⟨by rw [hs, hw.queue], by rw [hs, hw.pushes], h.unread hw.unread⟩

theorem Quiet.steady {w w' : World} (h : Quiet w w') (hw : Steady w) : Steady w' :=
  ⟨h.calm hw.toCalm, h.shadow ▸ hw.sound⟩

theorem QuietAt.trans (a b c : World) (h : QuietAt i a b) (h' : QuietAt i b c) : QuietAt i a c :=
  fun ha => Quiet.trans _ _ _ (h ha) (h' ((h ha).at ha))

theorem leads_at {t : M α} (h : Leads Quiet t) : Leads (QuietAt i) t := fun w _ => h w

theorem quietAt_bind {t : M α} {f : α → M β} (ht : Leads (QuietAt i) t)
    (hf : ∀ a, Leads (QuietAt i) (f a)) : Leads (QuietAt i) (t >>= f) := ht.bind QuietAt.trans hf

theorem quietAt_ensureSelectedLocked : Leads (QuietAt i) (ensureSelectedLocked srv i) := by
  intro w h
  have hw : after (ensureSelectedLocked srv i) w = w := by
    simp [ensureSelectedLocked, getState, h.1, h.2]
  rw [hw]
  exact Quiet.refl w

/-- The world after a command with the next reply, none being outstanding. -/
def World.ran (srv : Server) (w : World) (argv : List Text) (check : Bool) : World :=
  { w with
    toSession := w.toSession.run srv argv w.replies.head?.join
    replies := w.replies.tail
    trace := w.trace ++ [⟨w.selected, argv, check⟩] }

theorem value_command {w : World} (hu : w.unread = []) (argv : List Text) (check : Bool) :
    value (command srv argv check) w = w.replies.head?.join := by
  simp [command, append, getReply, hu]

theorem after_command {w : World} (hu : w.unread = []) (argv : List Text) (check : Bool) :
    after (command srv argv check) w = w.ran srv argv check := by
  simp [command, append, getReply, hu, World.ran]

/-- A `SELECT` moves the selection if it is accepted, and nothing else. -/
theorem ran_select {w : World} (hw : w.Calm) (check : Bool) :
    (w.ran srv (selectCommand i) check).Calm ∧
      (w.ran srv (selectCommand i) check).selected =
        if accepted w.replies.head?.join then i else w.selected := by
  have hrun : (w.ran srv (selectCommand i) check).toSession =
      if accepted w.replies.head?.join then { w.toSession with selected := i } else w.toSession := by
    rw [World.ran, run_idle hw.queue, srv.reads_select]
    rfl
  refine ⟨⟨?_, ?_, hw.unread⟩, ?_⟩
  all_goals
    rw [hrun]
    split_ifs
  · exact hw.queue
  · exact hw.queue
  · exact hw.pushes
  · exact hw.pushes
  · rfl
  · rfl

/-- What the check does to the client: it goes on when the copy says so or the server
agrees to move. -/
theorem ensure_client (srv : Server) (i : ℤ) {w : World} (hu : w.unread = [])
    (hc : w.conn.state.ctx = true) :
    (value (ensureSelectedLocked srv i) w = true ↔
        (shadow w).Ready i (accepted w.replies.head?.join)) ∧
      (shadow (after (ensureSelectedLocked srv i) w)).cached =
        ((shadow w).ensure i (accepted w.replies.head?.join)).cached ∧
      (after (ensureSelectedLocked srv i) w).replies =
        (if w.conn.state.selectedDb = i then w.replies else w.replies.tail) ∧
      ∃ es, (after (ensureSelectedLocked srv i) w).trace = w.trace ++ es ∧
        ∀ e ∈ es, e.check = true := by
  by_cases hd : w.conn.state.selectedDb = i
  · have hcached := cached_iff.mpr ⟨hc, hd⟩
    rw [Shadow.ensure_of_cached hcached]
    refine ⟨?_, ?_, ?_, [], ?_, by simp⟩
    · simp [ensureSelectedLocked, getState, hc, hd, Shadow.Ready, hcached]
    all_goals simp [ensureSelectedLocked, getState, hc, hd]
  · have hn : (shadow w).cached ≠ some i := fun h => hd (cached_iff.mp h).2
    rw [Shadow.ensure, if_neg hn]
    have hv := @value_command srv w hu (selectCommand i) true
    have hw := @after_command srv w hu (selectCommand i) true
    refine ⟨?_, ?_, ?_, [⟨w.selected, selectCommand i, true⟩], ?_, by simp⟩
    all_goals
      cases ha : accepted w.replies.head?.join <;>
        simp [ensureSelectedLocked, getState, hc, hd, hv, hw, ha, Shadow.Ready, shadow,
          World.ran, modifyState, Shadow.record]

/-- What it does to a calm connection. -/
theorem ensure_server (srv : Server) (i : ℤ) {w : World} (hw : w.Calm)
    (hc : w.conn.state.ctx = true) :
    (after (ensureSelectedLocked srv i) w).Calm ∧
      (shadow (after (ensureSelectedLocked srv i) w)).actual =
        ((shadow w).ensure i (accepted w.replies.head?.join)).actual := by
  by_cases hd : w.conn.state.selectedDb = i
  · rw [Shadow.ensure_of_cached (cached_iff.mpr ⟨hc, hd⟩)]
    have hsame : after (ensureSelectedLocked srv i) w = w := by
      simp [ensureSelectedLocked, getState, hc, hd]
    rw [hsame]
    exact ⟨hw, rfl⟩
  · have hn : (shadow w).cached ≠ some i := fun h => hd (cached_iff.mp h).2
    rw [Shadow.ensure, if_neg hn]
    have hv := @value_command srv w hw.unread (selectCommand i) true
    have ha := @after_command srv w hw.unread (selectCommand i) true
    obtain ⟨hcalm, hsel⟩ := @ran_select srv i w hw true
    cases hacc : accepted w.replies.head?.join with
    | false =>
      have hran : after (ensureSelectedLocked srv i) w = w.ran srv (selectCommand i) true := by
        simp [ensureSelectedLocked, getState, hc, hd, hv, ha, hacc]
      rw [hran]
      exact ⟨hcalm, by simpa [hacc, shadow] using hsel⟩
    | true =>
      have hran : after (ensureSelectedLocked srv i) w =
          after (modifyState fun st => { st with selectedDb := i })
            (w.ran srv (selectCommand i) true) := by
        simp [ensureSelectedLocked, getState, hc, hd, hv, ha, hacc]
      rw [hran]
      refine ⟨⟨hcalm.queue, hcalm.pushes, hcalm.unread⟩, ?_⟩
      simpa [hacc, shadow, modifyState, Shadow.record] using hsel

theorem ensure_shadow (srv : Server) (i : ℤ) {w : World} (hw : w.Calm)
    (hc : w.conn.state.ctx = true) :
    shadow (after (ensureSelectedLocked srv i) w) =
      (shadow w).ensure i (accepted w.replies.head?.join) := by
  have hcached := (ensure_client srv i hw.unread hc).2.1
  have hactual := (ensure_server srv i hw hc).2
  generalize (shadow w).ensure i (accepted w.replies.head?.join) = t at hcached hactual ⊢
  generalize shadow (after (ensureSelectedLocked srv i) w) = t' at hcached hactual ⊢
  obtain ⟨cached, actual⟩ := t
  obtain ⟨cached', actual'⟩ := t'
  obtain rfl : cached' = cached := hcached
  obtain rfl : actual' = actual := hactual
  rfl

end Ensure

section Operations
variable {srv : Server} {i : ℤ} {α : Type} {w : World}

theorem after_getState (f : RedisState → M α) : after (getState >>= f) w = after (f w.conn.state) w :=
  rfl

theorem ensure_closed (h : w.conn.state.ctx = false) :
    value (ensureSelectedLocked srv i) w = false ∧ after (ensureSelectedLocked srv i) w = w := by
  simp [ensureSelectedLocked, getState, h]

theorem at_ensured (hu : w.unread = []) (h : value (ensureSelectedLocked srv i) w = true) :
    At i (after (ensureSelectedLocked srv i) w) := by
  cases hc : w.conn.state.ctx with
  | false =>
    rw [(ensure_closed hc).1] at h
    cases h
  | true =>
    obtain ⟨hv, hcached, -⟩ := ensure_client srv i hu hc
    exact cached_iff.mp (hcached.trans (Shadow.ensure_cached (hv.mp h)))

theorem ensure_steady (hs : Steady w) : Steady (after (ensureSelectedLocked srv i) w) := by
  cases hc : w.conn.state.ctx with
  | false =>
    rw [(ensure_closed hc).2]
    exact hs
  | true =>
    refine ⟨(ensure_server srv i hs.toCalm hc).1, ?_⟩
    rw [ensure_shadow srv i hs.toCalm hc]
    exact Shadow.ensure_sound hs.sound

theorem selected_of_ensured (hs : Steady w) (h : value (ensureSelectedLocked srv i) w = true) :
    (after (ensureSelectedLocked srv i) w).selected = i :=
  (@ensure_steady srv i w hs).sound i (cached_iff.mpr (at_ensured hs.unread h))

theorem ensure_trace (hu : w.unread = []) (ht : w.trace = []) :
    ∀ e ∈ (after (ensureSelectedLocked srv i) w).trace, e.check = true := by
  cases hc : w.conn.state.ctx with
  | false =>
    rw [(ensure_closed hc).2, ht]
    simp
  | true =>
    obtain ⟨-, -, -, es, hes, hall⟩ := ensure_client srv i hu hc
    rw [hes, ht]
    exact hall

/-- What a handle's operation must achieve: every command after the check runs on its
database, and the connection stays steady. -/
structure OnOwn (i : ℤ) (w' : World) : Prop extends Steady w' where
  trace : ∀ e ∈ w'.trace, e.check = false → e.db = i

/-- The shape of every handle operation: the check, then commands of the client's own. -/
theorem onOwn_guarded {d : α} {body : M α} (hb : Leads (QuietAt i) body) (ht : w.trace = [])
    (hs : Steady w) :
    OnOwn i (after (ensureSelectedLocked srv i >>= fun ok =>
      if (!ok) = true then pure d else body) w) := by
  have hcheck := @ensure_trace srv i w hs.unread ht
  have hsteady := @ensure_steady srv i w hs
  rw [after_bind]
  cases hv : value (ensureSelectedLocked srv i) w with
  | false => exact ⟨hsteady, fun e he hc => absurd (hcheck e he) (by simp [hc])⟩
  | true =>
    have hsel := selected_of_ensured hs hv
    have hq := hb _ (at_ensured hs.unread hv)
    obtain ⟨es, hes, hall⟩ := hq.trace
    rw [Bool.not_true, if_neg Bool.false_ne_true]
    refine ⟨hq.steady hsteady, fun e he hc => ?_⟩
    rw [hes] at he
    rcases List.mem_append.mp he with he | he
    · exact absurd (hcheck e he) (by simp [hc])
    · rw [(hall e he).1, hsel]

theorem quietAt_fetchKeyDetails (keyNames : List Text) :
    Leads (QuietAt i) (fetchKeyDetails srv i keyNames) := by
  refine quietAt_bind quietAt_ensureSelectedLocked fun ok => ?_
  split_ifs
  · exact leads_at (quiet_pure _)
  · exact leads_at (quiet_keyDetails _)

theorem onOwn_tables (ht : w.trace = []) (hs : Steady w) :
    OnOwn i (after (tables srv i) w) := by
  refine onOwn_guarded ?_ ht hs
  exact leads_at (quiet_bind (quiet_scanKeysLocked _ _) fun _ => quiet_pure _)

theorem onOwn_getTableData (tableName : Text) (limit offset : ℕ) (ht : w.trace = [])
    (hs : Steady w) :
    OnOwn i (after (getTableData srv i tableName limit offset) w) := by
  refine onOwn_guarded ?_ ht hs
  refine quietAt_bind (leads_at (quiet_scanKeysLocked _ _)) fun keyNames => ?_
  split_ifs
  · exact leads_at (quiet_pure _)
  · exact quietAt_bind (quietAt_fetchKeyDetails _) fun _ => leads_at (quiet_pure _)

theorem onOwn_getRowCount (tableName : Text) (ht : w.trace = []) (hs : Steady w) :
    OnOwn i (after (getRowCount srv i tableName) w) := by
  refine onOwn_guarded ?_ ht hs
  exact leads_at (quiet_bind (quiet_scanKeysLocked _ _) fun _ => quiet_pure _)

def userReply (w : World) (i : ℤ) : Option Reply :=
  (if w.conn.state.selectedDb = i then w.replies else w.replies.tail).head?.join

/-- Typed through the handle of `i`, the command leaves database `i` selected, queues
nothing and has the one reply. -/
def Command.Harmless (i : ℤ) : Command → Prop
  | .plain | .exec | .discard => True
  | .select n => n = i
  | .reset => i = 0
  | .multi | .stream => False

theorem obey_harmless {c : Command} (h : c.Harmless i) (hw : w.Calm) (hsel : w.selected = i) :
    w.toSession.obey c = w.toSession := by
  obtain ⟨⟨selected, queue, pushes⟩, conn, replies, unread, trace⟩ := w
  obtain ⟨rfl, rfl, -⟩ := hw
  cases c with
  | plain | exec | discard => rfl
  | select n =>
    obtain rfl : n = i := h
    obtain rfl : selected = n := hsel
    rfl
  | reset =>
    obtain rfl : i = 0 := h
    obtain rfl : selected = 0 := hsel
    rfl
  | multi | stream => exact h.elim

/-- A harmless command the user types keeps the handle on its database. -/
theorem onOwn_execute (cmd errstr : Text) (ht : w.trace = []) (hs : Steady w)
    (hq : w.conn.state.ctx = true → (shadow w).Ready i (accepted w.replies.head?.join) →
      accepted (userReply w i) = true → (srv.reads (parseRedisCommand cmd)).Harmless i) :
    OnOwn i (after (execute srv i cmd errstr) w) := by
  have hsame : OnOwn i w := ⟨hs, by simp [ht]⟩
  unfold execute
  by_cases hp : parseRedisCommand cmd = []
  · simp only [hp, if_true]
    exact hsame
  dsimp only
  rw [if_neg hp, after_getState]
  cases hc : w.conn.state.ctx with
  | false => exact hsame
  | true =>
    obtain ⟨hv, -, hrep, -⟩ := ensure_client srv i hs.unread hc
    have hcheck := @ensure_trace srv i w hs.unread ht
    have hsteady := @ensure_steady srv i w hs
    rw [if_neg (by simp)]
    cases hok : value (ensureSelectedLocked srv i) w with
    | false =>
      rw [after_bind_of hok rfl]
      exact ⟨hsteady, fun e he hf => absurd (hcheck e he) (by simp [hf])⟩
    | true =>
      rw [after_bind_of hok rfl]
      have hsel := selected_of_ensured hs hok
      have hready := hv.mp hok
      have hreply : (after (ensureSelectedLocked srv i) w).replies.head?.join = userReply w i := by
        rw [hrep, userReply]
      generalize after (ensureSelectedLocked srv i) w = w1 at hcheck hsteady hsel hreply
      have hrun : (w1.ran srv (parseRedisCommand cmd) false).toSession = w1.toSession := by
        rw [World.ran, run_idle hsteady.queue, hreply]
        split_ifs with ha
        · exact obey_harmless (hq hc hready ha) hsteady.toCalm hsel
        · rfl
      have hran : OnOwn i (w1.ran srv (parseRedisCommand cmd) false) := by
        refine ⟨⟨⟨?_, ?_, hsteady.unread⟩, ?_⟩, fun e he hf => ?_⟩
        · rw [hrun, hsteady.queue]
        · rw [hrun, hsteady.pushes]
        · have hshadow : shadow (w1.ran srv (parseRedisCommand cmd) false) = shadow w1 := by
            rw [shadow, hrun]
            rfl
          rw [hshadow]
          exact hsteady.sound
        · rcases List.mem_append.mp he with he | he
          · exact absurd (hcheck e he) (by simp [hf])
          · rw [List.mem_singleton.mp he]
            exact hsel
      rw [← after_command hsteady.unread] at hran
      exact hran

/-- The end of `selectDatabase` and of `open`: the copies follow an accepted `SELECT`. -/
theorem steady_select (hs : Steady w) : Steady (after (do
    let reply ← command srv (selectCommand i) false
    if accepted reply then setSelected i) w) := by
  obtain ⟨hcalm, hsel⟩ := @ran_select srv i w hs.toCalm false
  rw [after_bind_of (value_command hs.unread _ _) (after_command hs.unread _ _)]
  cases ha : accepted w.replies.head?.join with
  | false =>
    refine ⟨hcalm, ?_⟩
    have hshadow : shadow (w.ran srv (selectCommand i) false) = shadow w := by
      rw [shadow, hsel, ha]
      rfl
    rw [if_neg Bool.false_ne_true]
    exact hshadow ▸ hs.sound
  | true =>
    rw [if_pos rfl]
    refine ⟨⟨hcalm.queue, hcalm.pushes, hcalm.unread⟩, fun k hk => ?_⟩
    have hmoved : (w.ran srv (selectCommand i) false).selected = i := by rw [hsel, if_pos ha]
    unfold shadow at hk
    dsimp only at hk
    split_ifs at hk
    exact hmoved.trans (Option.some.inj hk)

theorem steady_selectDatabase (hs : Steady w) : Steady (after (selectDatabase srv i) w) := by
  have hselect := @steady_select srv i w hs
  unfold selectDatabase
  rw [after_getState]
  split_ifs
  · exact hs
  · exact hs
  · rw [after_bind] at hselect ⊢
    cases ha : accepted (value (command srv (selectCommand i) false) w) with
    | false | true =>
      rw [ha] at hselect
      exact hselect

theorem steady_selectRequested (hs : Steady w) : Steady (after (selectRequested srv) w) := by
  unfold selectRequested
  rw [after_bind_of (value_get w) (after_get w)]
  cases hi : stoi w.conn.info.database with
  | none => exact hs
  | some idx =>
    have hselect := @steady_select srv idx w hs
    dsimp only
    split_ifs
    · rw [after_bind] at hselect ⊢
      cases ha : accepted (value (command srv (selectCommand idx) false) w) with
      | false | true =>
        rw [ha] at hselect
        exact hselect
    · exact hs

theorem Calm.closed (hw : w.Calm) (h : w.conn.state.ctx = false) : Steady w :=
  ⟨hw, fun k hk => by simp [shadow, h] at hk⟩

theorem steady_opened (hw : w.Calm) (hsel : w.selected = 0) :
    Steady (after (do
      let reply ← command srv ["CONFIG".toList, "GET".toList, "databases".toList] false
      modifyState fun st => { st with numDatabases := configuredDatabases reply }
      setSelected 0
      selectRequested srv) w) := by
  have hown : Own ["CONFIG".toList, "GET".toList, "databases".toList] := ⟨_, _, rfl, by decide⟩
  have hq := @quiet_command srv _ hown w
  have hcalm := hq.calm hw
  rw [after_bind_of rfl rfl, after_bind_of rfl rfl, after_bind_of rfl rfl]
  refine steady_selectRequested ⟨⟨hcalm.queue, hcalm.pushes, hcalm.unread⟩, fun k hk => ?_⟩
  unfold shadow at hk
  dsimp only at hk
  split_ifs at hk
  exact (hq.selected.trans hsel).trans (Option.some.inj hk)

theorem steady_openConnection (err : Option Text) (hs : Steady w) :
    Steady (after (openConnection srv err) w) := by
  unfold openConnection
  rw [after_getState]
  split_ifs with hc
  · exact hs
  cases err with
  | some e => exact Calm.closed ⟨hs.queue, hs.pushes, hs.unread⟩ rfl
  | none =>
    dsimp only
    obtain ⟨w₁, hw₁, hcalm₁, hsel₁⟩ : ∃ w₁, after (modifyState fun st => { st with ctx := true })
        (after (modify fun w => { w with toSession := {}, unread := [] }) w) = w₁ ∧ w₁.Calm ∧
          w₁.selected = 0 := ⟨_, rfl, ⟨rfl, rfl, rfl⟩, rfl⟩
    rw [after_bind_of rfl rfl, after_bind_of rfl hw₁]
    have hq := @quiet_authenticate srv w₁
    have hcalm₂ := hq.calm hcalm₁
    cases hv : value (authenticate srv) w₁ with
    | some e =>
      rw [after_bind_of hv rfl]
      exact Calm.closed ⟨hcalm₂.queue, hcalm₂.pushes, hcalm₂.unread⟩ rfl
    | none =>
      have hown : Own ["PING".toList] := ⟨_, _, rfl, by decide⟩
      have hping := @quiet_command srv _ hown (after (authenticate srv) w₁)
      have hcalm₃ := hping.calm hcalm₂
      rw [after_bind_of hv rfl, after_bind]
      cases replyError "Connection test failed".toList
          (value (command srv ["PING".toList] false) (after (authenticate srv) w₁)) with
      | some e => exact Calm.closed ⟨hcalm₃.queue, hcalm₃.pushes, hcalm₃.unread⟩ rfl
      | none => exact steady_opened hcalm₃ (hping.selected.trans (hq.selected.trans hsel₁))

end Operations

inductive Op
  | openConnection (connectError : Option Text)
  | closeConnection
  | selectDatabase (dbIndex : ℤ)
  | execute (index : ℤ) (cmd errstr : Text)
  | tables (index : ℤ)
  | getTableData (index : ℤ) (tableName : Text) (limit offset : ℕ)
  | getRowCount (index : ℤ) (tableName : Text)
  | getKeys (pattern : Text) (limit : ℤ)
  | getKeyValue (key knownType : Text)
  | getKeyType (key : Text)
  | getKeyTTL (key : Text)

def Op.handle : Op → Option ℤ
  | .execute i _ _ | .tables i | .getTableData i _ _ _ | .getRowCount i _ => some i
  | _ => none

def Op.run (srv : Server) : Op → World → World
  | .openConnection e => after (Redis.openConnection srv e)
  | .closeConnection => after Redis.closeConnection
  | .selectDatabase i => after (Redis.selectDatabase srv i)
  | .execute i cmd errstr => after (Redis.execute srv i cmd errstr)
  | .tables i => after (Redis.tables srv i)
  | .getTableData i n limit offset => after (Redis.getTableData srv i n limit offset)
  | .getRowCount i n => after (Redis.getRowCount srv i n)
  | .getKeys p limit => after (Redis.getKeys srv p limit)
  | .getKeyValue k t => after (Redis.getKeyValue srv k t)
  | .getKeyType k => after (Redis.getKeyType srv k)
  | .getKeyTTL k => after (Redis.getKeyTTL srv k)

/-- An operation with the replies its commands will get, and what a server that sends
unasked has sent before it. -/
structure Call where
  op : Op
  replies : List (Option Reply) := []
  pushed : List (Option Reply) := []

def World.ready (w : World) (c : Call) : World :=
  { w with
    replies := c.replies
    unread := w.unread ++ if w.pushes then c.pushed else []
    trace := [] }

def step (srv : Server) (w : World) (c : Call) : World := c.op.run srv (w.ready c)

/-- A command the user types through a handle is harmless there, if the server accepts it. -/
def Undisturbed (srv : Server) (w : World) (c : Call) : Prop :=
  ∀ i cmd errstr, c.op = .execute i cmd errstr → w.conn.state.ctx = true →
    (shadow w).Ready i (accepted c.replies.head?.join) →
      accepted (userReply (w.ready c) i) = true →
        (srv.reads (parseRedisCommand cmd)).Harmless i

/-- Every command a handle sends after its check runs on the handle's database. -/
def OnOwnDatabase (srv : Server) (w : World) (c : Call) : Prop :=
  ∀ i, c.op.handle = some i → ∀ e ∈ (step srv w c).trace, e.check = false → e.db = i

section Runs
variable {srv : Server} {w : World} {c : Call}

theorem Steady.ready (hs : Steady w) (c : Call) : Steady (w.ready c) :=
  ⟨⟨hs.queue, hs.pushes, by simp [World.ready, hs.unread, hs.pushes]⟩, hs.sound⟩

theorem steady_step (hs : Steady w) (h : Undisturbed srv w c) : Steady (step srv w c) := by
  have hr := hs.ready c
  unfold step Op.run
  cases hop : c.op with
  | openConnection e => exact steady_openConnection e hr
  | closeConnection => exact Calm.closed ⟨hr.queue, hr.pushes, hr.unread⟩ rfl
  | selectDatabase i => exact steady_selectDatabase hr
  | execute i cmd errstr => exact (onOwn_execute cmd errstr rfl hr (h i cmd errstr hop)).toSteady
  | tables i => exact (onOwn_tables rfl hr).toSteady
  | getTableData i n limit offset => exact (onOwn_getTableData n limit offset rfl hr).toSteady
  | getRowCount i n => exact (onOwn_getRowCount n rfl hr).toSteady
  | getKeys p limit => exact (quiet_getKeys p limit _).steady hr
  | getKeyValue k t => exact (quiet_getKeyValue k t _).steady hr
  | getKeyType k => exact (quiet_getKeyType k _).steady hr
  | getKeyTTL k => exact (quiet_getKeyTTL k _).steady hr

/-- On a steady connection a handle's commands run on its database. -/
theorem onOwnDatabase_step (hs : Steady w) (h : Undisturbed srv w c) : OnOwnDatabase srv w c := by
  have hr := hs.ready c
  intro i hi
  unfold step Op.run
  cases hop : c.op with
  | execute j cmd errstr =>
    obtain rfl : j = i := by simpa [Op.handle, hop] using hi
    exact (onOwn_execute cmd errstr rfl hr (h j cmd errstr hop)).trace
  | tables j =>
    obtain rfl : j = i := by simpa [Op.handle, hop] using hi
    exact (onOwn_tables rfl hr).trace
  | getTableData j n limit offset =>
    obtain rfl : j = i := by simpa [Op.handle, hop] using hi
    exact (onOwn_getTableData n limit offset rfl hr).trace
  | getRowCount j n =>
    obtain rfl : j = i := by simpa [Op.handle, hop] using hi
    exact (onOwn_getRowCount n rfl hr).trace
  | _ => simp [Op.handle, hop] at hi

theorem steady_init (info : ConnectionInfo) : Steady { conn := { info := info } } :=
  Calm.closed ⟨rfl, rfl, rfl⟩ rfl

/-- In a run of undisturbed operations every handle acts on its own database. -/
theorem undisturbed_on_own_database (srv : Server) (info : ConnectionInfo) (cs : List Call)
    (h : Along (step srv) (Undisturbed srv) { conn := { info := info } } cs) :
    Along (step srv) (OnOwnDatabase srv) { conn := { info := info } } cs :=
  h.of_invariant (fun _ _ hs hu => steady_step hs hu) (fun _ _ hs hu => onOwnDatabase_step hs hu)
    (steady_init info)

end Runs

section PlainServer

def keywords : List (Text × Command) :=
  [("multi".toList, .multi), ("exec".toList, .exec), ("discard".toList, .discard),
    ("reset".toList, .reset), ("subscribe".toList, .stream), ("psubscribe".toList, .stream),
    ("monitor".toList, .stream)]

/-- A server that goes by the first word, in any case; `SELECT` takes a number. -/
def plainServer : Server where
  reads
    | [] => .plain
    | w :: args =>
      if lower w = "select".toList then
        match args with
        | [n] => ((leadingInt n).map Command.select).getD .plain
        | _ => .plain
      else ((keywords.lookup (lower w))).getD .plain
  reads_select i := by
    have h : lower "SELECT".toList = "select".toList := by decide
    simp only [selectCommand, h, if_true, leadingInt_itoa]
    rfl
  reads_own w args hw := by
    have hn : ∀ w ∈ ownCommands, lower w ≠ "select".toList ∧ keywords.lookup (lower w) = none := by
      decide
    dsimp only
    rw [if_neg (hn w hw).1, (hn w hw).2]
    rfl

def okReply : Option Reply := some (.status "OK".toList)

def opened : Call :=
  { op := .openConnection none, replies := [some (.status "PONG".toList), some .nil] }

def typed (index : ℤ) (cmd : Text) (replies : List (Option Reply)) : Call :=
  { op := .execute index cmd [], replies := replies }

theorem two_databases_in_turn :
    Along (step plainServer) (OnOwnDatabase plainServer) {}
      [opened, typed 0 "FLUSHDB".toList [okReply], typed 1 "FLUSHDB".toList [okReply, okReply]] := by
  have hread : plainServer.reads (parseRedisCommand "FLUSHDB".toList) = .plain := by decide
  apply undisturbed_on_own_database
  refine ⟨fun i cmd errstr h => Op.noConfusion h, ?_, ?_, trivial⟩
  all_goals
    intro i cmd errstr h _ _ _
    obtain ⟨_, rfl, _⟩ := Op.execute.inj h
    rw [hread]
    trivial

/-- After `SELECT 1` typed through the handle of database 0, its `FLUSHDB` empties
database 1. -/
theorem user_select_unnoticed :
    ¬ Along (step plainServer) (OnOwnDatabase plainServer) {}
      [opened, typed 0 "SELECT 1".toList [okReply], typed 0 "FLUSHDB".toList [okReply]] := by
  rintro ⟨_, _, h, _⟩
  have hdb := h 0 rfl ⟨1, ["FLUSHDB".toList], false⟩ (by decide) rfl
  exact absurd hdb (by decide)

def queuedReply : Option Reply := some (.status "QUEUED".toList)

/-- Behind a typed `MULTI` the check's own `SELECT` is only queued, and `DISCARD` drops it. -/
example : (final (step plainServer) {}
    [opened, typed 0 "MULTI".toList [okReply],
      typed 1 "SET k v".toList [queuedReply, queuedReply], typed 1 "DISCARD".toList [okReply],
      typed 1 "FLUSHDB".toList [okReply]]).trace = [⟨0, ["FLUSHDB".toList], false⟩] := by
  decide

end PlainServer

end DearSql.Redis
