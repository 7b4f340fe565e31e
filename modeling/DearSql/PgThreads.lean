import DearSql.Interleavings
import DearSql.Text

/-! `PostgresDatabase` used from any number of threads: `executeIn` with the three mutexes it
takes, the catalog reads and `alive` that take only `mu_`, and `cancel`. Each access to
`searchPath_` is taken as one event; what a thread asks of the server is one event as well. -/
namespace DearSql.Pg.Threads
open Interleavings

/-- The connection. `searchPath_` is none while it is unknown; `path` is the setting of the session
on the server, with no text for the session's default. -/
structure Link where
  conn_ : Bool := false
  searchPath_ : Option Text := some []
  path : Text := []
  deriving DecidableEq, Repr

/-- What the threads share. -/
structure Handle extends Link where
  pathMu_ : Bool := false
  mu_ : Bool := false
  cancelMu_ : Bool := false
  deriving DecidableEq, Repr

/-- What a query is for: `executeIn` sets the path or runs the batch of the caller, or it is a
catalog read. -/
inductive Task
  | set (schema : Text)
  | batch (schema : Text)
  | read
  deriving DecidableEq, Repr

/-- Where a thread is. `keep` is whether the query went well, and for a batch also whether its
text leaves the path known; `stopped` is whether `run` has cancelled it. -/
inductive Place
  | idle
  | entering (schema : Text)
  | comparing (schema : Text)
  | starting (t : Task)
  | checking
  | checked
  | opening (t : Task)
  | linking (t : Task)
  | linked (t : Task)
  | running (t : Task)
  | streaming (t : Task) (keep stopped : Bool)
  | stopping (t : Task) (keep : Bool)
  | stopped (t : Task) (keep : Bool)
  | storing (schema : Text)
  | judging (keep : Bool)
  | leaving
  | aborting
  | cancelling
  deriving DecidableEq, Repr

inductive Event
  /-- A call of `executeIn`. -/
  | enter (schema : Text)
  | lockPath
  /-- `schema != searchPath_`. -/
  | compare
  | enterRead
  | enterAlive
  /-- `run` or `alive` takes `mu_`. -/
  | lock
  /-- `ensureConn` finds the connection. -/
  | reuse
  /-- `ensureConn` connects, and clears `searchPath_`. -/
  | connect
  | connectFails
  /-- `ensureConn` or `cancel` takes `cancelMu_`. -/
  | lockCancel
  | unlockCancel
  /-- The query goes to the server; a batch may leave another setting behind. -/
  | send (ok named : Bool) (moved : Option Text)
  /-- `run` cancels its own query, with more rows than asked for. -/
  | overflow
  /-- `mu_` is given back. -/
  | finish
  /-- `searchPath_ = schema`. -/
  | store
  /-- `searchPath_ = UNKNOWN` after a batch that does not keep it. -/
  | judge
  | unlockPath
  /-- A call of `cancel`. -/
  | enterCancel
  deriving DecidableEq, Repr

/-- Where `executeIn` goes on once `mu_` is given back. -/
def Task.after : Task → Bool → Place
  | .set schema, keep => if keep then .storing schema else .leaving
  | .batch _, keep => .judging keep
  | .read, _ => .idle

def act : Event → Handle → Place → Option (Handle × Place)
  | .enter schema, s, .idle => some (s, .entering schema)
  | .lockPath, s, .entering schema =>
    if s.pathMu_ then none else some ({ s with pathMu_ := true }, .comparing schema)
  | .compare, s, .comparing schema =>
    some (s, .starting (if s.searchPath_ = some schema then .batch schema else .set schema))
  | .enterRead, s, .idle => some (s, .starting .read)
  | .lock, s, .starting t => if s.mu_ then none else some ({ s with mu_ := true }, .opening t)
  | .enterAlive, s, .idle => some (s, .checking)
  | .lock, s, .checking => if s.mu_ then none else some ({ s with mu_ := true }, .checked)
  | .finish, s, .checked => some ({ s with mu_ := false }, .idle)
  | .reuse, s, .opening t => if s.conn_ then some (s, .running t) else none
  | .connect, s, .opening t =>
    if s.conn_ then none
    else some ({ s with conn_ := true, path := [], searchPath_ := some [] }, .linking t)
  | .connectFails, s, .opening t => if s.conn_ then none else some (s, .streaming t false false)
  | .lockCancel, s, .linking t =>
    if s.cancelMu_ then none else some ({ s with cancelMu_ := true }, .linked t)
  | .unlockCancel, s, .linked t => some ({ s with cancelMu_ := false }, .running t)
  | .send ok _ _, s, .running (.set schema) =>
    some (if ok then { s with path := schema } else s, .streaming (.set schema) ok false)
  | .send ok named moved, s, .running (.batch schema) =>
    some ({ s with path := moved.getD s.path }, .streaming (.batch schema) (ok && !named) false)
  | .send ok _ _, s, .running .read => some (s, .streaming .read ok false)
  -- the other queries ask for every row, or for a row where there is one (the size of a table)
  | .overflow, s, .streaming (.batch schema) keep false => some (s, .stopping (.batch schema) keep)
  | .lockCancel, s, .stopping t keep =>
    if s.cancelMu_ then none else some ({ s with cancelMu_ := true }, .stopped t keep)
  | .unlockCancel, s, .stopped t keep => some ({ s with cancelMu_ := false }, .streaming t keep true)
  | .finish, s, .streaming t keep _ => some ({ s with mu_ := false }, t.after keep)
  | .store, s, .storing schema => some ({ s with searchPath_ := some schema }, .starting (.batch schema))
  | .judge, s, .judging keep =>
    some (if keep then s else { s with searchPath_ := none }, .leaving)
  | .unlockPath, s, .leaving => some ({ s with pathMu_ := false }, .idle)
  | .enterCancel, s, .idle => some (s, .aborting)
  | .lockCancel, s, .aborting =>
    if s.cancelMu_ then none else some ({ s with cancelMu_ := true }, .cancelling)
  | .unlockCancel, s, .cancelling => some ({ s with cancelMu_ := false }, .idle)
  | _, _, _ => none

variable {ι : Type*} [DecidableEq ι]

abbrev State (ι : Type*) := Config ι Handle Place

abbrev History (ι : Type*) := List (ι × Event)

/-- A handle that has not been used. -/
def fresh : State ι := ⟨{}, fun _ => .idle⟩

/-- A task that runs under `pathMu_`. -/
def Task.inPath : Task → Bool
  | .set _ | .batch _ => true
  | .read => false

section Locks

inductive Lock
  | path | mu | cancel
  deriving DecidableEq, Repr

def Lock.rank : Lock → ℕ
  | .path => 0
  | .mu => 1
  | .cancel => 2

def Place.holdsPath : Place → Bool
  | .comparing _ | .storing _ | .judging _ | .leaving => true
  | .starting t | .opening t | .linking t | .linked t | .running t => t.inPath
  | .streaming t _ _ | .stopping t _ | .stopped t _ => t.inPath
  | _ => false

def Place.holdsMu : Place → Bool
  | .checked | .opening _ | .linking _ | .linked _ | .running _ => true
  | .streaming _ _ _ | .stopping _ _ | .stopped _ _ => true
  | _ => false

def Place.holdsCancel : Place → Bool
  | .linked _ | .stopped _ _ | .cancelling => true
  | _ => false

def Place.holds (k : Place) : Lock → Bool
  | .path => k.holdsPath
  | .mu => k.holdsMu
  | .cancel => k.holdsCancel

/-- The lock a thread waits for. -/
def Place.waits : Place → Option Lock
  | .entering _ => some .path
  | .starting _ | .checking => some .mu
  | .linking _ | .stopping _ _ | .aborting => some .cancel
  | _ => none

def Handle.taken (s : Handle) : Lock → Bool
  | .path => s.pathMu_
  | .mu => s.mu_
  | .cancel => s.cancelMu_

end Locks

section Operations

variable {e : Event} {s s' : Handle} {k k' : Place} {l : Lock} {t : Task} {keep : Bool}

@[simp] theorem after_holdsPath : (t.after keep).holdsPath = t.inPath := by
  cases t <;> cases keep <;> rfl

@[simp] theorem after_holdsMu : (t.after keep).holdsMu = false := by
  cases t <;> cases keep <;> rfl

@[simp] theorem after_holdsCancel : (t.after keep).holdsCancel = false := by
  cases t <;> cases keep <;> rfl

/-- An operation leaves a lock as it is, takes a free one or gives back its own. -/
theorem act_lock (ha : act e s k = some (s', k')) :
    (s'.taken l = s.taken l ∧ k'.holds l = k.holds l) ∨
      (s.taken l = false ∧ k.holds l = false ∧ s'.taken l = true ∧ k'.holds l = true) ∨
      (k.holds l = true ∧ s'.taken l = false ∧ k'.holds l = false) := by
  unfold act at ha
  cases l <;> split at ha <;>
    grind -ring -linarith [Place.holds, Handle.taken, Place.holdsPath, Place.holdsMu,
      Place.holdsCancel, Task.inPath, after_holdsPath, after_holdsMu, after_holdsCancel]

end Operations

section Paths

/-- A path that is known is the session's. -/
def Link.Agrees (s : Link) : Prop := ∀ p, s.searchPath_ = some p → s.conn_ = true → s.path = p

/-- Before the first connection no path has been set. -/
def Link.Unset (s : Link) : Prop := s.conn_ = false → ∀ p, s.searchPath_ = some p → p = []

/-- What a task relies on until its query is sent. -/
def Task.Relies (s : Link) : Task → Prop
  | .set _ => s.Agrees
  | .batch schema => s.searchPath_ = some schema ∧ s.Agrees
  | .read => True

/-- What it relies on afterwards, the query having gone well or not. -/
def Task.Left (s : Link) : Task → Bool → Prop
  | .set schema, keep => if keep then s.conn_ = true ∧ s.path = schema else s.Agrees
  | .batch _, keep => keep = true → s.Agrees
  | .read, _ => True

def Place.Relies (s : Link) : Place → Prop
  | .comparing _ | .leaving => s.Agrees
  | .starting t | .opening t => t.Relies s
  | .linking t | .linked t | .running t => s.conn_ = true ∧ t.Relies s
  | .streaming t keep _ | .stopping t keep | .stopped t keep => t.Left s keep
  | .storing schema => s.conn_ = true ∧ s.path = schema
  | .judging keep => keep = true → s.Agrees
  | .idle | .entering _ | .checking | .checked | .aborting | .cancelling => True

/-- A batch that went well and whose text names no setting leaves the path alone. -/
def Event.Quiet : Event → Prop
  | .send ok named moved => ok = true → named = false → moved = none
  | _ => True

variable {e : Event} {s s' : Handle} {k k' l : Place} {t : Task} {keep : Bool}

theorem agrees_connected : Link.Agrees { conn_ := true } := by
  rintro p hp -
  exact Option.some.inj hp

theorem Task.Relies.connected {s : Link} (ht : t.Relies s) (hunset : s.Unset)
    (hclosed : s.conn_ = false) : t.Relies { conn_ := true } := by
  cases t with
  | set schema => exact agrees_connected
  | batch schema => exact ⟨(hunset hclosed schema ht.1) ▸ rfl, agrees_connected⟩
  | read => trivial

theorem Task.Relies.left_false {s : Link} (ht : t.Relies s) : t.Left s false := by
  cases t with
  | set schema => simpa [Task.Left, Task.Relies] using ht
  | batch schema => simp [Task.Left]
  | read => trivial

theorem Task.Left.after {s : Link} (ht : t.Left s keep) : (t.after keep).Relies s := by
  cases t with
  | set schema => cases keep <;> exact ht
  | batch schema => exact ht
  | read => trivial

theorem act_relies (hquiet : e.Quiet) (hk : k.Relies s.toLink) (hunset : s.Unset)
    (hknown : s.pathMu_ = false → s.Agrees) (ha : act e s k = some (s', k')) :
    k'.Relies s'.toLink := by
  unfold act at ha
  split at ha <;> grind -ring -linarith [Place.Relies, Task.Relies.connected,
    Task.Relies.left_false, Task.Left.after, Task.Relies, Task.Left, Link.Agrees, Event.Quiet]

/-- An operation keeps the connection as it is, opens it, or moves the path under `pathMu_`. -/
theorem act_link (ha : act e s k = some (s', k')) :
    s'.toLink = s.toLink ∨
      (k.holdsMu = true ∧ s.conn_ = false ∧ s'.toLink = { conn_ := true }) ∨
      (k.holdsPath = true ∧ s'.conn_ = s.conn_) := by
  unfold act at ha
  split at ha <;> grind -ring -linarith [Place.holdsMu, Place.holdsPath, Task.inPath]

theorem Place.Relies.connected {s : Link} (hk : k.Relies s) (hmu : k.holdsMu = false)
    (hunset : s.Unset) (hclosed : s.conn_ = false) : k.Relies { conn_ := true } := by
  cases k with
  | starting t => exact Task.Relies.connected hk hunset hclosed
  | comparing schema => exact agrees_connected
  | leaving => exact agrees_connected
  | judging keep => exact fun _ => agrees_connected
  | storing schema => simp [Place.Relies, hclosed] at hk
  | idle | entering | checking | aborting | cancelling => trivial
  | checked | opening | linking | linked | running | streaming | stopping | stopped =>
    simp [Place.holdsMu] at hmu

theorem Task.relies_outside {s : Link} (ht : t.inPath = false) : t.Relies s := by
  cases t <;> trivial

theorem Place.Relies.outside {s n : Link} (hk : k.Relies s) (hpath : k.holdsPath = false)
    (hconn : n.conn_ = s.conn_) : k.Relies n := by
  cases k with
  | starting t | opening t => exact Task.relies_outside hpath
  | linking t | linked t | running t => exact ⟨hconn ▸ hk.1, Task.relies_outside hpath⟩
  | streaming t | stopping t | stopped t =>
    cases t <;> trivial
  | idle | entering | checking | checked | aborting | cancelling => trivial
  | comparing | storing | judging | leaving => simp [Place.holdsPath] at hpath

theorem act_others (hpath : k.holdsPath = true → l.holdsPath = false)
    (hmu : k.holdsMu = true → l.holdsMu = false) (hl : l.Relies s.toLink) (hunset : s.Unset)
    (ha : act e s k = some (s', k')) : l.Relies s'.toLink := by
  obtain hsame | ⟨hk, hclosed, hopen⟩ | ⟨hk, hconn⟩ := act_link ha
  · exact hsame ▸ hl
  · exact hopen ▸ hl.connected (hmu hk) hunset hclosed
  · exact hl.outside (hpath hk) hconn

theorem act_unset (hk : k.Relies s.toLink) (hunset : s.Unset) (ha : act e s k = some (s', k')) :
    s'.Unset := by
  unfold act at ha
  split at ha <;> grind -ring -linarith [Place.Relies, Link.Unset]

theorem act_known (hk : k.Relies s.toLink) (hpath : k.holdsPath = true → s.pathMu_ = true)
    (hknown : s.pathMu_ = false → s.Agrees) (ha : act e s k = some (s', k')) :
    s'.pathMu_ = false → s'.Agrees := by
  unfold act at ha
  split at ha <;> grind -ring -linarith [Place.Relies, Link.Agrees, Place.holdsPath, Task.inPath]

end Paths

section Histories

variable {c d : State ι} {g h : History ι} {i j : ι} {l : Lock}

theorem owned (l : Lock) (hrun : run act fresh h = some c) :
    Owned (fun s => s.taken l) (fun k => k.holds l) c := by
  refine owned_run ?_ ⟨none, ?_, fun i => ?_⟩ hrun
  · intro e s k s' k' ha
    obtain hsame | ⟨hdown, -, hs, hk⟩ | hback := act_lock (l := l) ha
    · exact .inl hsame
    · exact .inr (.inl ⟨hdown, hs, hk⟩)
    · exact .inr (.inr hback)
  · cases l <;> rfl
  · cases l <;> simp [fresh, Place.holds, Place.holdsPath, Place.holdsMu, Place.holdsCancel]

/-- What holds between the events. -/
structure Sound (c : State ι) : Prop where
  relies : ∀ i, (c.own i).Relies c.shared.toLink
  unset : c.shared.Unset
  known : c.shared.pathMu_ = false → c.shared.Agrees

omit [DecidableEq ι] in
theorem sound_fresh : Sound (fresh : State ι) where
  relies _ := trivial
  unset _ _ hp := (Option.some.inj hp).symm
  known _ _ _ hconn := by cases hconn

theorem sound_step {x : ι × Event} (hquiet : x.2.Quiet) (hrun : run act fresh h = some c)
    (hc : Sound c) (hx : step act c x = some d) : Sound d := by
  have ha := step_act hx
  have hpath := owned .path hrun
  have hmu := owned .mu hrun
  constructor
  · intro i
    obtain rfl | hi := eq_or_ne i x.1
    · exact act_relies hquiet (hc.relies x.1) hc.unset hc.known ha
    rw [own_other hx hi]
    refine act_others ?_ ?_ (hc.relies i) hc.unset ha
    · intro hk
      by_contra hl
      exact hi (hpath.eq (Bool.eq_true_of_not_eq_false hl) hk)
    · intro hk
      by_contra hl
      exact hi (hmu.eq (Bool.eq_true_of_not_eq_false hl) hk)
  · exact act_unset (hc.relies x.1) hc.unset ha
  · exact act_known (hc.relies x.1) (fun hk => hpath.taken hk) hc.known ha

theorem sound (hquiet : ∀ x ∈ h, x.2.Quiet) (hrun : run act fresh h = some c) : Sound c := by
  induction h using List.reverseRecOn generalizing c with
  | nil =>
    obtain rfl : fresh = c := Option.some.inj hrun
    exact sound_fresh
  | append_singleton h x ih =>
    obtain ⟨m, hm, hx⟩ := run_concat_eq_some.mp hrun
    rw [List.forall_mem_append, List.forall_mem_singleton] at hquiet
    exact sound_step hquiet.2 hm (ih hquiet.1 hm) hx

/-- At the moment a batch is sent, the path of the session is that of the handle it came from. -/
theorem batch_path {schema : Text} (hquiet : ∀ x ∈ h, x.2.Quiet) (hrun : run act fresh h = some c)
    (hi : c.own i = .running (.batch schema)) :
    c.shared.conn_ = true ∧ c.shared.path = schema := by
  have hrelies := (sound hquiet hrun).relies i
  rw [hi] at hrelies
  obtain ⟨hconn, hpath, hagrees⟩ := hrelies
  exact ⟨hconn, hagrees schema hpath hconn⟩

/-- A schema handle waits for a catalog read to open the connection and then sets its path. -/
def race : History Bool :=
  [(false, .enter ['a']), (false, .lockPath), (true, .enterRead), (true, .lock),
    (false, .compare), (true, .connect), (true, .lockCancel), (true, .unlockCancel),
    (true, .send true false none), (true, .finish), (false, .lock), (false, .reuse),
    (false, .send true false none), (false, .finish), (false, .store), (false, .lock),
    (false, .reuse)]

theorem race_quiet : ∀ x ∈ race, x.2.Quiet := by
  simp [race, Event.Quiet]

theorem batch_path_race : ∃ c, run act fresh race = some c ∧
    c.own false = .running (.batch ['a']) ∧ c.shared.conn_ = true ∧ c.shared.path = ['a'] := by
  have hrun : run act fresh race = some _ := rfl
  exact ⟨_, hrun, rfl, batch_path (i := false) race_quiet hrun rfl⟩

end Histories

section Progress

/-- A call is made by a thread that is in none. -/
def Event.isCall : Event → Bool
  | .enter _ | .enterRead | .enterAlive | .enterCancel => true
  | _ => false

/-- The most events a call takes from where its query is sent. -/
def Task.rest : Task → ℕ
  | .set _ => 13
  | .batch _ => 3
  | .read => 1

/-- The most events a call has left. -/
def Place.left : Place → ℕ
  | .idle => 0
  | .entering _ => 23
  | .comparing _ => 22
  | .starting t => t.rest + 8
  | .opening t => t.rest + 7
  | .linking t => t.rest + 6
  | .linked t => t.rest + 5
  | .running t => t.rest + 4
  | .streaming t _ halted => t.rest + if halted then 0 else 3
  | .stopping t _ => t.rest + 2
  | .stopped t _ => t.rest + 1
  | .storing _ => 12
  | .judging _ => 2
  | .leaving => 1
  | .checking | .aborting => 2
  | .checked | .cancelling => 1

variable {e : Event} {s s' : Handle} {k k' : Place} {l l' : Lock} {c d : State ι}
  {g h : History ι} {i : ι}

theorem act_left (he : e.isCall = false) (ha : act e s k = some (s', k')) : k'.left < k.left := by
  unfold act at ha
  split at ha <;> grind [Event.isCall, Place.left, Task.rest, Task.after, cases Task]

theorem waits_above (hl : k.waits = some l) (hl' : k.holds l' = true) : l'.rank < l.rank := by
  cases k <;> cases l' <;> grind [Place.waits, Place.holds, Place.holdsPath, Place.holdsMu,
    Place.holdsCancel, Lock.rank]

/-- A thread in a call goes on where the lock it waits for is free. -/
theorem exists_act (hk : k ≠ .idle) (hfree : ∀ l, k.waits = some l → s.taken l = false) :
    ∃ e r, e.isCall = false ∧ act e s k = some r := by
  cases k with
  | idle => exact absurd rfl hk
  | entering schema => exact ⟨.lockPath, _, rfl, if_neg (Bool.eq_false_iff.mp (hfree .path rfl))⟩
  | comparing schema => exact ⟨.compare, _, rfl, rfl⟩
  | starting t => exact ⟨.lock, _, rfl, if_neg (Bool.eq_false_iff.mp (hfree .mu rfl))⟩
  | checking => exact ⟨.lock, _, rfl, if_neg (Bool.eq_false_iff.mp (hfree .mu rfl))⟩
  | checked => exact ⟨.finish, _, rfl, rfl⟩
  | opening t =>
    by_cases hconn : s.conn_ = true
    · exact ⟨.reuse, _, rfl, if_pos hconn⟩
    · exact ⟨.connect, _, rfl, if_neg hconn⟩
  | linking t => exact ⟨.lockCancel, _, rfl, if_neg (Bool.eq_false_iff.mp (hfree .cancel rfl))⟩
  | linked t => exact ⟨.unlockCancel, _, rfl, rfl⟩
  | running t => cases t <;> exact ⟨.send true false none, _, rfl, rfl⟩
  | streaming t keep halted => exact ⟨.finish, _, rfl, rfl⟩
  | stopping t keep => exact ⟨.lockCancel, _, rfl, if_neg (Bool.eq_false_iff.mp (hfree .cancel rfl))⟩
  | stopped t keep => exact ⟨.unlockCancel, _, rfl, rfl⟩
  | storing schema => exact ⟨.store, _, rfl, rfl⟩
  | judging keep => exact ⟨.judge, _, rfl, rfl⟩
  | leaving => exact ⟨.unlockPath, _, rfl, rfl⟩
  | aborting => exact ⟨.lockCancel, _, rfl, if_neg (Bool.eq_false_iff.mp (hfree .cancel rfl))⟩
  | cancelling => exact ⟨.unlockCancel, _, rfl, rfl⟩

theorem holds_idle (l : Lock) : Place.idle.holds l = false := by
  cases l <;> rfl

theorem rank_le (l : Lock) : l.rank ≤ 2 := by
  cases l <;> decide

/-- While a call is under way, some thread in one can go on. -/
theorem exists_step (hrun : run act fresh h = some c) (hi : c.own i ≠ .idle) :
    ∃ x d, x.2.isCall = false ∧ step act c x = some d := by
  have hheld : ∀ l, ¬ c.shared.taken l = false →
      ∃ i, c.own i ≠ .idle ∧ (c.own i).holds l = true := by
    intro l hl
    obtain ⟨i, hi⟩ := (owned l hrun).exists (Bool.eq_true_of_not_eq_false hl)
    exact ⟨i, fun hidle => by simp [hidle, holds_idle] at hi, hi⟩
  have horder : ∀ i l l', (c.own i).waits = some l → (c.own i).holds l' = true →
      l'.rank < l.rank := fun i l l' => waits_above
  obtain ⟨j, hj, hfree⟩ := exists_moving rank_le hheld horder hi
  obtain ⟨e, r, he, ha⟩ := exists_act hj hfree
  exact ⟨(j, e), _, he, by rw [step, ha]; rfl⟩

variable [Fintype ι]

/-- However the threads are scheduled, the calls that are under way all return: without new calls
no history goes on for ever, and one that cannot be continued leaves every thread idle. -/
theorem calls_return (hrun : run act fresh h = some c) (hg : ∀ x ∈ g, x.2.isCall = false)
    (hd : run act c g = some d) :
    g.length + ∑ i, (d.own i).left ≤ ∑ i, (c.own i).left ∧
      ((∀ x : ι × Event, x.2.isCall = false → step act d x = none) → ∀ i, d.own i = .idle) := by
  constructor
  · exact length_add_sum_le Place.left (fun e s k s' k' he ha => act_left he ha) hg hd
  · intro hstuck i
    by_contra hi
    obtain ⟨x, d', hx, hstep⟩ := exists_step (run_append_eq_some.mpr ⟨c, hrun, hd⟩) hi
    rw [hstuck x hx] at hstep
    cases hstep

/-- The rest of the call of the schema handle. -/
def rest : History Bool :=
  [(false, .send true false none), (false, .finish), (false, .judge), (false, .unlockPath)]

theorem calls_return_race : ∃ c d, run act fresh race = some c ∧ run act c rest = some d ∧
    rest.length + ∑ i, (d.own i).left ≤ ∑ i, (c.own i).left ∧
      ((∀ x : Bool × Event, x.2.isCall = false → step act d x = none) → ∀ i, d.own i = .idle) := by
  obtain ⟨d, hd⟩ : ∃ d, run act fresh (race ++ rest) = some d := ⟨_, rfl⟩
  obtain ⟨c, hrun, hrest⟩ := run_append_eq_some.mp hd
  exact ⟨c, d, hrun, hrest, calls_return hrun (by decide) hrest⟩

end Progress

end DearSql.Pg.Threads
