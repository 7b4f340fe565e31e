import DearSql.Interleavings

/-! `MySQLDatabase::ensureConn` and `MySQLDatabase::cancel` on one handle, called from any
number of threads. The connection is looked for without the lock first and again under it,
and the thread id `cancel` kills by is stored before the connection that others wait for. -/
namespace DearSql.Mysql.Open
open Interleavings

/-- What `mysql_thread_id` gives for an open session; zero is no session. -/
abbrev ThreadId := {n : ℕ // n ≠ 0}

/-- What the threads share, with the sessions the server has opened for the handle and the
ids it has been asked to kill by. -/
structure Handle where
  conn_ : Option ThreadId := none
  threadId_ : ℕ := 0
  openMu_ : Bool := false
  mu_ : Bool := false
  sessions : List ThreadId := []
  killed : List ℕ := []
  deriving DecidableEq, Repr

/-- Where a thread is in `ensureConn`, in what it opens the connection for, or in `cancel`. -/
inductive Place
  | idle
  | wanting
  | looking
  | connecting
  | connected (c : ThreadId)
  | published (c : ThreadId)
  | leaving (opened : Bool)
  | ready
  | using (conn : Option ThreadId)
  | killing (id : ℕ)
  deriving DecidableEq, Repr

inductive Event
  /-- The first look at `conn_`; whether it was there. -/
  | look (found : Bool)
  /-- `ping` and `alive`, which only look. -/
  | ping (found : Bool)
  /-- `ensureConn` takes `openMu_`. -/
  | lockOpen
  /-- The second look at `conn_`. -/
  | lookAgain (found : Bool)
  /-- `openMysql` gives a session. -/
  | openMysql (c : ThreadId)
  /-- `openMysql` throws. -/
  | openFails
  /-- `threadId_ = mysql_thread_id(c)`. -/
  | storeThread
  /-- `conn_ = c`. -/
  | storeConn
  /-- The guard gives `openMu_` back, on return or for the exception. -/
  | unlockOpen
  /-- The caller takes `mu_` and reads `conn_`. -/
  | lock
  /-- The caller gives `mu_` back. -/
  | unlock
  /-- `cancel` reads `threadId_`. -/
  | readThread
  /-- `KILL QUERY`, from a connection of its own if that opens. -/
  | kill (opened : Bool)
  deriving DecidableEq, Repr

def act : Event → Handle → Place → Option (Handle × Place)
  | .look b, s, .idle =>
    if s.conn_.isSome = b then some (s, if b then .ready else .wanting) else none
  | .ping b, s, .idle => if s.conn_.isSome = b then some (s, if b then .ready else .idle) else none
  | .lockOpen, s, .wanting =>
    if s.openMu_ then none else some ({ s with openMu_ := true }, .looking)
  | .lookAgain b, s, .looking =>
    if s.conn_.isSome = b then some (s, if b then .leaving true else .connecting) else none
  | .openMysql c, s, .connecting => some ({ s with sessions := c :: s.sessions }, .connected c)
  | .openFails, s, .connecting => some (s, .leaving false)
  | .storeThread, s, .connected c => some ({ s with threadId_ := c.1 }, .published c)
  | .storeConn, s, .published c => some ({ s with conn_ := some c }, .leaving true)
  | .unlockOpen, s, .leaving b =>
    some ({ s with openMu_ := false }, if b then .ready else .idle)
  | .lock, s, .ready => if s.mu_ then none else some ({ s with mu_ := true }, .using s.conn_)
  | .unlock, s, .using _ => some ({ s with mu_ := false }, .idle)
  | .readThread, s, .idle =>
    some (s, if s.threadId_ = 0 then .idle else .killing s.threadId_)
  | .kill b, s, .killing id =>
    some (if b then { s with killed := id :: s.killed } else s, .idle)
  | _, _, _ => none

variable {ι : Type*} [DecidableEq ι]

abbrev State (ι : Type*) := Config ι Handle Place

abbrev History (ι : Type*) := List (ι × Event)

/-- A handle that has not been used. -/
def fresh : State ι := ⟨{}, fun _ => .idle⟩

/-- The thread holds `openMu_`. -/
def Place.opening : Place → Bool
  | .looking | .connecting | .connected _ | .published _ | .leaving _ => true
  | _ => false

/-- The thread holds `mu_`. -/
def Place.holds : Place → Bool
  | .using _ => true
  | _ => false

/-- A session opened and not yet in `conn_`. -/
def Place.session : Place → Option ThreadId
  | .connected c | .published c => some c
  | _ => none

/-- No session has been opened. -/
def Handle.Unopened (s : Handle) : Prop := s.conn_ = none ∧ s.sessions = [] ∧ s.threadId_ = 0

/-- What a thread relies on where it is. -/
def Place.Relies (s : Handle) : Place → Prop
  | .connecting => s.Unopened
  | .connected c => s.conn_ = none ∧ s.sessions = [c] ∧ s.threadId_ = 0
  | .published c => s.conn_ = none ∧ s.sessions = [c] ∧ s.threadId_ = c.1
  | .leaving true | .ready => s.conn_.isSome
  | .using o => o = s.conn_ ∧ o.isSome
  | .killing id => ∃ c ∈ s.sessions, c.1 = id
  | _ => True

/-- What holds between the operations: a session is in `conn_` or in the hands of the one
thread that opened it, and nothing else has been killed. -/
structure Sound (c : State ι) : Prop where
  relies : ∀ i, (c.own i).Relies c.shared
  opened : ∀ t, c.shared.conn_ = some t → c.shared.sessions = [t] ∧ c.shared.threadId_ = t.1
  unopened : c.shared.conn_.isSome = false → (∀ i, (c.own i).session = none) → c.shared.Unopened
  killed : ∀ k ∈ c.shared.killed, ∃ t ∈ c.shared.sessions, t.1 = k

section Operations

variable {e : Event} {s s' : Handle} {k k' l : Place}

theorem act_openMu (ha : act e s k = some (s', k')) :
    (s'.openMu_ = s.openMu_ ∧ k'.opening = k.opening) ∨
      (s.openMu_ = false ∧ s'.openMu_ = true ∧ k'.opening = true) ∨
      (k.opening = true ∧ s'.openMu_ = false ∧ k'.opening = false) := by
  cases e <;> cases k <;> simp [act] at ha <;> grind [Place.opening]

theorem act_mu (ha : act e s k = some (s', k')) :
    (s'.mu_ = s.mu_ ∧ k'.holds = k.holds) ∨
      (s.mu_ = false ∧ s'.mu_ = true ∧ k'.holds = true) ∨
      (k.holds = true ∧ s'.mu_ = false ∧ k'.holds = false) := by
  cases e <;> cases k <;> simp [act] at ha <;> grind [Place.holds]

/-- Only a thread that opens the connection changes what is known of it. -/
theorem act_same (hk : k.opening = false) (ha : act e s k = some (s', k')) :
    s'.conn_ = s.conn_ ∧ s'.sessions = s.sessions ∧ s'.threadId_ = s.threadId_ := by
  cases e <;> cases k <;> simp [act, Place.opening] at ha hk <;> grind

/-- A connection that is there stays, and a session opened stays opened. -/
theorem act_grows (hk : k.Relies s) (ha : act e s k = some (s', k')) :
    (s.conn_.isSome → s'.conn_ = s.conn_) ∧ ∀ t ∈ s.sessions, t ∈ s'.sessions := by
  cases e <;> cases k <;> simp [act] at ha <;> grind [Place.Relies]

theorem relies_same (hsame : s'.conn_ = s.conn_ ∧ s'.sessions = s.sessions ∧
    s'.threadId_ = s.threadId_) (hl : l.Relies s) : l.Relies s' := by
  obtain ⟨hc, hs, ht⟩ := hsame
  cases l <;> simp only [Place.Relies, Handle.Unopened, hc, hs, ht] at hl ⊢ <;> exact hl

theorem relies_grows (hconn : s.conn_.isSome → s'.conn_ = s.conn_)
    (hsessions : ∀ t ∈ s.sessions, t ∈ s'.sessions) (hopen : l.opening = false) (hl : l.Relies s) :
    l.Relies s' := by
  cases l <;> simp only [Place.Relies, Place.opening] at hl hopen ⊢ <;> grind

/-- What another thread relies on is left alone, unless both were opening a connection. -/
theorem act_others (hk : k.Relies s) (hl : l.Relies s) (hone : k.opening = false ∨ l.opening = false)
    (ha : act e s k = some (s', k')) : l.Relies s' := by
  rcases hone with hone | hone
  · exact relies_same (act_same hone ha) hl
  · exact relies_grows (act_grows hk ha).1 (act_grows hk ha).2 hone hl

/-- What the acting thread relies on afterwards. -/
theorem act_relies (hk : k.Relies s) (hlook : k = .looking → s.conn_.isSome = false → s.Unopened)
    (hthread : s.threadId_ ≠ 0 → ∃ t ∈ s.sessions, t.1 = s.threadId_)
    (ha : act e s k = some (s', k')) : k'.Relies s' := by
  cases e <;> cases k <;> simp [act] at ha <;> grind [Place.Relies, Handle.Unopened]

theorem act_opened (hk : k.Relies s)
    (hs : ∀ t, s.conn_ = some t → s.sessions = [t] ∧ s.threadId_ = t.1)
    (ha : act e s k = some (s', k')) :
    ∀ t, s'.conn_ = some t → s'.sessions = [t] ∧ s'.threadId_ = t.1 := by
  cases e <;> cases k <;> simp [act] at ha <;> grind [Place.Relies, Handle.Unopened]

/-- A state with no session follows one: whoever opens a session keeps it or stores it. -/
theorem act_unopened (hconn : s'.conn_.isSome = false) (hk' : k'.session = none)
    (ha : act e s k = some (s', k')) :
    k.session = none ∧ s.conn_.isSome = false ∧ (s.Unopened → s'.Unopened) := by
  cases e <;> cases k <;> simp [act] at ha <;> grind [Place.session, Handle.Unopened]

theorem act_killed (hk : k.Relies s) (hs : ∀ n ∈ s.killed, ∃ t ∈ s.sessions, t.1 = n)
    (ha : act e s k = some (s', k')) : ∀ n ∈ s'.killed, ∃ t ∈ s'.sessions, t.1 = n := by
  cases e <;> cases k <;> simp [act] at ha <;> grind [Place.Relies]

end Operations

variable {g h : History ι} {c d : State ι} {x : ι × Event} {i j : ι}

theorem owned_openMu (hrun : run act fresh h = some c) :
    Owned Handle.openMu_ Place.opening c :=
  owned_run (fun _ _ _ _ _ => act_openMu) ⟨none, rfl, by simp [fresh, Place.opening]⟩ hrun

theorem owned_mu (hrun : run act fresh h = some c) : Owned Handle.mu_ Place.holds c :=
  owned_run (fun _ _ _ _ _ => act_mu) ⟨none, rfl, by simp [fresh, Place.holds]⟩ hrun

theorem opening_of_session {k : Place} (hk : k.session ≠ none) : k.opening = true := by
  cases k <;> simp [Place.session, Place.opening] at hk ⊢

omit [DecidableEq ι] in
theorem Sound.thread_known (hs : Sound c) (hid : c.shared.threadId_ ≠ 0) :
    ∃ t ∈ c.shared.sessions, t.1 = c.shared.threadId_ := by
  cases hconn : c.shared.conn_ with
  | some t =>
    obtain ⟨hsessions, ht⟩ := hs.opened t hconn
    exact ⟨t, by simp [hsessions], ht.symm⟩
  | none =>
    by_cases hall : ∀ i, (c.own i).session = none
    · exact absurd (hs.unopened (by simp [hconn]) hall).2.2 hid
    · obtain ⟨i, hi⟩ := not_forall.mp hall
      have hrelies := hs.relies i
      cases hown : c.own i <;> simp [Place.session, hown, Place.Relies] at hi hrelies
      · exact absurd hrelies.2.2 hid
      · exact ⟨_, by simp [hrelies.2.1], hrelies.2.2.symm⟩

/-- A thread that looks again under the lock, and still finds no connection, is the first. -/
theorem Sound.looking (hs : Sound c) (hrun : run act fresh h = some c) (hi : c.own i = .looking)
    (hconn : c.shared.conn_.isSome = false) : c.shared.Unopened := by
  refine hs.unopened hconn fun j => by_contra fun hj => ?_
  have hopening : (c.own i).opening = true := by simp [hi, Place.opening]
  obtain rfl := (owned_openMu hrun).eq (opening_of_session hj) hopening
  exact hj (by simp [hi, Place.session])

theorem Sound.step (hs : Sound c) (hrun : run act fresh h = some c)
    (hx : Interleavings.step act c x = some d) : Sound d where
  relies i := by
    by_cases hi : i = x.1
    · subst hi
      exact act_relies (hs.relies x.1) (hs.looking hrun) hs.thread_known (step_act hx)
    · rw [own_other hx hi]
      refine act_others (hs.relies x.1) (hs.relies i) ?_ (step_act hx)
      by_contra hboth
      rw [not_or, Bool.not_eq_false, Bool.not_eq_false] at hboth
      exact hi ((owned_openMu hrun).eq hboth.2 hboth.1)
  opened := act_opened (hs.relies x.1) hs.opened (step_act hx)
  unopened hconn hall := by
    obtain ⟨hown, hbefore, hkeeps⟩ := act_unopened hconn (hall x.1) (step_act hx)
    refine hkeeps (hs.unopened hbefore fun i => ?_)
    by_cases hi : i = x.1
    · exact hi ▸ hown
    · exact own_other hx hi ▸ hall i
  killed := act_killed (hs.relies x.1) hs.killed (step_act hx)

omit [DecidableEq ι] in
theorem sound_fresh : Sound (fresh : State ι) where
  relies _ := trivial
  opened _ h := by cases h
  unopened _ _ := ⟨rfl, rfl, rfl⟩
  killed _ h := by cases h

theorem sound (hrun : run act fresh h = some c) : Sound c := by
  induction h using List.reverseRecOn generalizing c with
  | nil => exact Option.some.inj hrun ▸ sound_fresh
  | append_singleton h x ih =>
    obtain ⟨m, hm, hx⟩ := run_concat_eq_some.mp hrun
    exact (ih hm).step hm hx

omit [DecidableEq ι] in
theorem Sound.length_sessions (hs : Sound c) : c.shared.sessions.length ≤ 1 := by
  cases hconn : c.shared.conn_ with
  | some t => simp [(hs.opened t hconn).1]
  | none =>
    by_cases hall : ∀ i, (c.own i).session = none
    · simp [(hs.unopened (by simp [hconn]) hall).2.1]
    · obtain ⟨i, hi⟩ := not_forall.mp hall
      have hrelies := hs.relies i
      cases hown : c.own i <;> simp [Place.session, hown, Place.Relies] at hi hrelies <;>
        simp [hrelies.2.1]

/-- However the first calls race, one session is opened and it is the one every caller finds;
one caller at a time uses it, and nothing else is killed. -/
theorem one_session (hrun : run act fresh h = some c) :
    c.shared.sessions.length ≤ 1 ∧
      (∀ i o, c.own i = .using o → ∃ t, o = some t ∧ c.shared.conn_ = some t ∧
        c.shared.sessions = [t]) ∧
      (∀ i j o o', c.own i = .using o → c.own j = .using o' → i = j) ∧
      ∀ n ∈ c.shared.killed, ∃ t ∈ c.shared.sessions, t.1 = n := by
  have hs := sound hrun
  refine ⟨hs.length_sessions, fun i o hi => ?_, fun i j o o' hi hj => ?_, hs.killed⟩
  · have hrelies := hs.relies i
    rw [hi] at hrelies
    obtain ⟨rfl, hsome⟩ := hrelies
    obtain ⟨t, ht⟩ := Option.isSome_iff_exists.mp hsome
    exact ⟨t, ht, ht, (hs.opened t ht).1⟩
  · exact (owned_mu hrun).eq (by simp [hi, Place.holds]) (by simp [hj, Place.holds])

theorem conn_stays {t : ThreadId} (hrun : run act fresh h = some c)
    (hconn : c.shared.conn_ = some t) (hlater : run act c g = some d) :
    d.shared.conn_ = some t := by
  induction g using List.reverseRecOn generalizing d with
  | nil => exact Option.some.inj hlater ▸ hconn
  | append_singleton g x ih =>
    obtain ⟨m, hm, hx⟩ := run_concat_eq_some.mp hlater
    have hsound : Sound m := sound (run_append_eq_some.mpr ⟨c, hrun, hm⟩)
    have hmt := ih hm
    rw [(act_grows (hsound.relies x.1) (step_act hx)).1 (by simp [hmt]), hmt]

/-- The connection, once there, stays while the handle is in use; a cancel made since then
goes to its session. -/
theorem cancel_reaches_session {t : ThreadId} (hrun : run act fresh h = some c)
    (hconn : c.shared.conn_ = some t) (hlater : run act c g = some d) :
    d.shared.conn_ = some t ∧
      ∀ j b, Interleavings.step act d (j, .readThread) = some b → b.own j = .killing t.1 := by
  have hconn' := conn_stays hrun hconn hlater
  have hsound : Sound d := sound (run_append_eq_some.mpr ⟨c, hrun, hlater⟩)
  refine ⟨hconn', fun j b hb => ?_⟩
  have hthread := (hsound.opened t hconn').2
  have ha := step_act hb
  cases hj : d.own j <;> simp [act, hj, hthread, t.2] at ha
  exact ha.2.symm

/-- Two first calls race: the one that comes second to the lock finds the connection. -/
def race : History (Fin 2) :=
  [(0, .look false), (1, .look false), (1, .lockOpen), (1, .lookAgain false),
    (1, .openMysql ⟨7, by decide⟩), (1, .storeThread), (1, .storeConn), (1, .unlockOpen),
    (0, .lockOpen), (0, .lookAgain true), (0, .unlockOpen), (0, .lock)]

theorem one_session_race : ∃ c, run act fresh race = some c ∧
    c.own 0 = .using (some ⟨7, by decide⟩) ∧ c.shared.sessions.length ≤ 1 := by
  have hrun : run act fresh race = some _ := rfl
  exact ⟨_, hrun, rfl, (one_session hrun).1⟩

theorem cancel_reaches_session_race : ∃ c d, run act fresh race = some c ∧
    run act c [(0, .unlock), (1, .lock), (0, .look true)] = some d ∧
    d.shared.conn_ = some ⟨7, by decide⟩ := by
  have hrun : run act fresh race = some _ := rfl
  refine ⟨_, _, hrun, rfl, ?_⟩
  exact (cancel_reaches_session (g := [(0, .unlock), (1, .lock), (0, .look true)]) hrun rfl rfl).1

end DearSql.Mysql.Open
