import DearSql.Runs
import DearSql.Separated
import DearSql.Text
import DearSql.Types

/-! The Oracle client of a process: when it is installed, when the driver is asked for a context,
and when the process replaces itself so that its library path is read again. -/
namespace DearSql.Oracle.Client
open Runs

variable {κ : Type*}

structure ClientOptions where
  autoInstall : Bool := true
  reexecForLibraryPath : Bool := true

structure ContextState (κ : Type*) where
  ctx : Option κ := none
  error : Text := []
  failed : Bool := false
  failedInstalled : Bool := false
  autoInstallAttempted : Bool := false
  options : ClientOptions := {}
  libDir : Text := []

/-- `LD_LIBRARY_PATH`, and whether `DEARSQL_ORACLE_LD_BOOTSTRAPPED` is set. -/
structure Environment where
  libraryPath : Option Text
  bootstrapped : Bool

structure Process (κ : Type*) where
  state : ContextState κ := {}
  env : Environment

/-- What one call finds outside the process. -/
structure Outside (κ : Type*) where
  installed : Bool
  install : Status
  installedAfter : Bool
  installDir : Text
  args : List Text
  replaces : Bool
  create : Except Text κ
  dir_ne : installDir ≠ []

/-- What a call does outside the process. -/
inductive Event
  | installTried (ok : Bool)
  | asked (installed ok : Bool)
  | replaced (dir : Text)
  | reset
  deriving DecidableEq, Repr

/-- The process after a call, what the call returns, and what it did. -/
structure Done (κ : Type*) where
  process : Process κ
  returned : Option κ
  events : List Event

def ldLibraryPathContains (e : Environment) (dir : Text) : Bool :=
  match e.libraryPath with
  | none => false
  | some sv => sv ≠ [] && (sv.splitOn ':').contains dir

/-- The second says whether the process is gone. -/
def reexecWithLdLibraryPath (installDir : Text) (o : Outside κ) (e : Environment) :
    Environment × Bool :=
  if e.bootstrapped then (e, false)
  else
    let newPath := match e.libraryPath with
      | some (c :: cur) => installDir ++ ':' :: c :: cur
      | _ => installDir
    ({ libraryPath := some newPath, bootstrapped := true }, o.args ≠ [] && o.replaces)

/-- The last part of `getDpiContext`: `dpiContext_createWithParams`. -/
def createWithParams (installed : Bool) (o : Outside κ) (p : Process κ) : Done κ :=
  match o.create with
  | .error msg =>
    let error := if contains "DPI-1047".toList msg then
      "Oracle Instant Client is not installed.".toList else msg
    ⟨{ p with state := { p.state with ctx := none, error := error, failed := true
                                      failedInstalled := installed } },
      none, [.asked installed false]⟩
  | .ok c =>
    ⟨{ p with state := { p.state with ctx := some c, failed := false, error := [] } },
      some c, [.asked installed true]⟩

/-- The client directory is looked up and has to be on the library path. The second says whether
the process is gone. -/
def prepareLibrary (o : Outside κ) (p : Process κ) : Process κ × Bool :=
  let state := { p.state with libDir := o.installDir }
  if p.state.options.reexecForLibraryPath && !ldLibraryPathContains p.env o.installDir then
    let r := reexecWithLdLibraryPath o.installDir o p.env
    (⟨state, r.1⟩, r.2)
  else (⟨state, p.env⟩, false)

/-- The part of `getDpiContext` behind the installation. -/
def createContext (installed : Bool) (o : Outside κ) (p : Process κ) : Done κ :=
  if p.state.failed && p.state.failedInstalled == installed then ⟨p, none, []⟩
  else if installed then
    let r := prepareLibrary o p
    -- the new process starts over, in the environment it was given
    if r.2 then ⟨{ env := r.1.env }, none, [.replaced o.installDir]⟩
    else createWithParams installed o r.1
  else createWithParams installed o p

def installFailed (err : Text) (s : ContextState κ) : ContextState κ :=
  { s with
    error := "Oracle Instant Client auto-install failed: ".toList ++
      if err = [] then "unknown error".toList else err
    failed := true
    failedInstalled := false }

def getDpiContext (allowInstall : Bool) (o : Outside κ) (p : Process κ) : Done κ :=
  match p.state.ctx with
  | some c => ⟨p, some c, []⟩
  | none =>
    if !o.installed && allowInstall && p.state.options.autoInstall &&
        !p.state.autoInstallAttempted then
      let p := { p with state := { p.state with autoInstallAttempted := true } }
      if o.install.ok then
        let d := createContext o.installedAfter o p
        { d with events := .installTried true :: d.events }
      else
        ⟨{ p with state := installFailed o.install.error p.state }, none, [.installTried false]⟩
    else createContext o.installed o p

/-- The calls about the client: `connect` is what opening a connection does. -/
inductive Call (κ : Type*)
  | connect (o : Outside κ)
  | needsClientInstall (o : Outside κ)
  | setClientOptions (options : ClientOptions)
  | resetContext

def Call.perform (p : Process κ) : Call κ → Done κ
  | .connect o => getDpiContext true o p
  | .needsClientInstall o => getDpiContext false o p
  | .setClientOptions options =>
    ⟨{ p with state := { p.state with options := options } }, none, []⟩
  | .resetContext =>
    ⟨{ p with state := { p.state with failed := false, failedInstalled := false
                                      autoInstallAttempted := false, error := [] } },
      none, [.reset]⟩

def step (p : Process κ) (c : Call κ) : Process κ := (c.perform p).process

/-- What the calls of a run do, in order. -/
def log : Process κ → List (Call κ) → List Event
  | _, [] => []
  | p, c :: cs => (c.perform p).events ++ log (step p c) cs

section Memory

/-- What the past of a process allows: whether it has a context, what the last failure was, and
whether the client was already installed once. -/
structure Memory where
  alive : Bool
  failure : Option Bool
  tried : Bool
  deriving DecidableEq

def Memory.after (m : Memory) : Event → Memory
  | .installTried ok => { m with tried := true, failure := if ok then m.failure else some false }
  | .asked installed ok => if ok then { m with alive := true, failure := none }
    else { m with failure := some installed }
  | .replaced _ => ⟨false, none, false⟩
  | .reset => { m with failure := none, tried := false }

def Memory.Allows (m : Memory) : Event → Prop
  | .installTried _ => m.alive = false ∧ m.tried = false
  | .asked installed _ => m.alive = false ∧ m.failure ≠ some installed
  | .replaced _ => m.alive = false
  | .reset => True

def Process.memory (p : Process κ) : Memory :=
  ⟨p.state.ctx.isSome, if p.state.failed then some p.state.failedInstalled else none,
    p.state.autoInstallAttempted⟩

/-- What is done next is allowed by the memory so far, and is remembered. -/
def Remembers (m : Memory) (d : Done κ) : Prop :=
  Along Memory.after Memory.Allows m d.events ∧ final Memory.after m d.events = d.process.memory

variable {p : Process κ} {o : Outside κ} {i : Bool}

theorem createWithParams_remembers (hctx : p.state.ctx = none)
    (hfailure : p.memory.failure ≠ some i) :
    Remembers p.memory (createWithParams i o p) := by
  have halive : p.memory.alive = false := by simp [Process.memory, hctx]
  cases ho : o.create with
  | error msg =>
    simp only [createWithParams, ho]
    exact ⟨⟨⟨halive, hfailure⟩, trivial⟩, by simp [Memory.after, Process.memory, hctx]⟩
  | ok c =>
    simp only [createWithParams, ho]
    exact ⟨⟨⟨halive, hfailure⟩, trivial⟩, by simp [Memory.after, Process.memory]⟩

theorem prepareLibrary_memory : (prepareLibrary o p).1.memory = p.memory := by
  unfold prepareLibrary
  split <;> rfl

theorem prepareLibrary_ctx : (prepareLibrary o p).1.state.ctx = p.state.ctx := by
  unfold prepareLibrary
  split <;> rfl

theorem createContext_remembers (hctx : p.state.ctx = none) :
    Remembers p.memory (createContext i o p) := by
  unfold createContext
  split_ifs with hfailed hinstalled
  · exact ⟨trivial, rfl⟩
  all_goals
    have hfailure : p.memory.failure ≠ some i := by
      simp only [Process.memory]
      split_ifs with hf <;> simp_all
  · dsimp only
    split_ifs with hgone
    · refine ⟨⟨?_, trivial⟩, rfl⟩
      simp [Memory.Allows, Process.memory, hctx]
    · have hprepared := createWithParams_remembers (o := o) (i := i)
        (p := (prepareLibrary o p).1) (prepareLibrary_ctx.trans hctx)
      rw [prepareLibrary_memory] at hprepared
      exact hprepared hfailure
  · exact createWithParams_remembers hctx hfailure

theorem getDpiContext_remembers (allowInstall : Bool) :
    Remembers p.memory (getDpiContext allowInstall o p) := by
  unfold getDpiContext
  cases hctx : p.state.ctx with
  | some c => exact ⟨trivial, rfl⟩
  | none =>
    dsimp only
    split_ifs with hdue hok
    · have hnew : p.memory.alive = false ∧ p.memory.tried = false := by
        simp_all [Process.memory]
      obtain ⟨hallowed, hafter⟩ := createContext_remembers (o := o) (i := o.installedAfter)
        (p := { p with state := { p.state with autoInstallAttempted := true } }) hctx
      exact ⟨⟨hnew, hallowed⟩, hafter⟩
    · have hnew : p.memory.alive = false ∧ p.memory.tried = false := by
        simp_all [Process.memory]
      exact ⟨⟨hnew, trivial⟩, rfl⟩
    · exact createContext_remembers hctx

theorem perform_remembers (c : Call κ) : Remembers p.memory (c.perform p) := by
  cases c with
  | connect o => exact getDpiContext_remembers true
  | needsClientInstall o => exact getDpiContext_remembers false
  | setClientOptions options => exact ⟨trivial, rfl⟩
  | resetContext => exact ⟨⟨trivial, trivial⟩, by simp [Call.perform, Memory.after, Process.memory]⟩

/-- Every step of a run is allowed by what was done before it, and the process is as the memory of
the run has it. -/
theorem log_remembers (p : Process κ) (cs : List (Call κ)) :
    Along Memory.after Memory.Allows p.memory (log p cs) ∧
      final Memory.after p.memory (log p cs) = (final step p cs).memory := by
  induction cs generalizing p with
  | nil => exact ⟨trivial, rfl⟩
  | cons c cs ih =>
    obtain ⟨hallowed, hafter⟩ := perform_remembers (p := p) c
    rw [log, along_append, final_append, hafter]
    exact ⟨⟨hallowed, (ih (step p c)).1⟩, (ih (step p c)).2⟩

theorem createWithParams_events : (createWithParams i o p).events ≠ [] := by
  unfold createWithParams
  split <;> simp

theorem createContext_idle_iff :
    (createContext i o p).events = [] ↔ p.memory.failure = some i := by
  unfold createContext
  dsimp only
  split_ifs with hfailed
  · simp_all [Process.memory]
  all_goals
    have hfailure : p.memory.failure ≠ some i := by
      simp only [Process.memory]
      split_ifs with hf <;> simp_all
    simp [hfailure, createWithParams_events]

theorem needsClientInstall_idle_iff : ((Call.needsClientInstall o).perform p).events = [] ↔
    p.memory.alive = true ∨ p.memory.failure = some o.installed := by
  simp only [Call.perform, getDpiContext]
  cases hctx : p.state.ctx with
  | some c => simp [Process.memory, hctx]
  | none =>
    have halive : p.memory.alive = false := by simp [Process.memory, hctx]
    simp [halive, createContext_idle_iff]

/-- After it a failure that found the client installed, or not, no longer counts. -/
def Event.Reopens (i : Bool) : Event → Prop
  | .reset | .replaced _ => True
  | .asked j _ => j ≠ i
  | .installTried ok => ok = false ∧ i = true

variable {m : Memory} {l : List Event}

/-- Nothing more is done once there is a context. -/
theorem only_resets (hl : Along Memory.after Memory.Allows m l) (hm : m.alive = true) :
    ∀ e ∈ l, e = .reset := by
  induction l generalizing m with
  | nil => simp
  | cons e l ih =>
    obtain ⟨he, hl⟩ := hl
    cases e with
    | reset => exact List.forall_mem_cons.mpr ⟨rfl, ih hl hm⟩
    | installTried ok => exact absurd he.1 (by simp [hm])
    | asked j ok => exact absurd he.1 (by simp [hm])
    | replaced dir => exact absurd he (by simp [Memory.Allows, hm])

theorem failure_stays (hl : Along Memory.after Memory.Allows m l)
    (hreopens : ∀ e ∈ l, ¬e.Reopens i) (hm : m.failure = some i) :
    (final Memory.after m l).failure = some i := by
  induction l generalizing m with
  | nil => exact hm
  | cons e l ih =>
    obtain ⟨he, hl⟩ := hl
    obtain ⟨hopen, hreopens⟩ := List.forall_mem_cons.mp hreopens
    refine ih hl hreopens ?_
    cases e with
    | reset => exact absurd trivial hopen
    | replaced dir => exact absurd trivial hopen
    | asked j ok =>
      obtain rfl : j = i := by simpa [Event.Reopens] using hopen
      exact absurd hm he.2
    | installTried ok =>
      cases ok with
      | true => exact hm
      | false =>
        obtain rfl : i = false := by simpa [Event.Reopens] using hopen
        rfl

theorem tried_stays (hl : ∀ e ∈ l, e ≠ .reset ∧ ∀ dir, e ≠ .replaced dir)
    (hm : m.tried = true) : (final Memory.after m l).tried = true := by
  induction l generalizing m with
  | nil => exact hm
  | cons e l ih =>
    obtain ⟨he, hl⟩ := List.forall_mem_cons.mp hl
    refine ih hl ?_
    cases e with
    | reset => exact absurd rfl he.1
    | replaced dir => exact absurd rfl (he.2 dir)
    | asked j ok => cases ok <;> exact hm
    | installTried ok => rfl

end Memory

section Runs

/-- What is done again, and what is not. -/
structure Remembered (l : List Event) : Prop where
  /-- Once the driver gives a context, nothing is installed, asked or replaced any more. -/
  created : ∀ {before i behind}, l = before ++ .asked i true :: behind → ∀ e ∈ behind, e = .reset
  /-- The driver is not asked again about a client it could not load. -/
  failed : ∀ {before i between ok behind},
    l = before ++ .asked i false :: (between ++ .asked i ok :: behind) →
      ∃ e ∈ between, e.Reopens i
  /-- After a failed installation the driver is not asked without a client. -/
  notInstalled : ∀ {before between ok behind},
    l = before ++ .installTried false :: (between ++ .asked false ok :: behind) →
      ∃ e ∈ between, e.Reopens false
  /-- The client is installed once. -/
  tried : ∀ {before ok between ok' behind},
    l = before ++ .installTried ok :: (between ++ .installTried ok' :: behind) →
      ∃ e ∈ between, e = .reset ∨ ∃ dir, e = .replaced dir

theorem remembered (p : Process κ) (cs : List (Call κ)) : Remembered (log p cs) := by
  have hlog := (log_remembers p cs).1
  refine ⟨?_, ?_, ?_, ?_⟩
  · intro before i behind hl
    rw [hl, along_append] at hlog
    exact only_resets hlog.2.2 rfl
  · intro before i between ok behind hl
    rw [hl, along_append, along_cons, along_append] at hlog
    by_contra hnone
    push Not at hnone
    exact hlog.2.2.2.1.2 (failure_stays hlog.2.2.1 hnone rfl)
  · intro before between ok behind hl
    rw [hl, along_append, along_cons, along_append] at hlog
    by_contra hnone
    push Not at hnone
    exact hlog.2.2.2.1.2 (failure_stays hlog.2.2.1 hnone rfl)
  · intro before ok between ok' behind hl
    rw [hl, along_append, along_cons, along_append] at hlog
    by_contra hnone
    push Not at hnone
    exact Bool.false_ne_true (hlog.2.2.2.1.2.symm.trans (tried_stays hnone rfl))

/-- Whatever the calls and whatever they find: a failure is remembered until the context is reset
or the client comes or goes, and no longer. -/
theorem failures_remembered (p : Process κ) (cs : List (Call κ)) : Remembered (log p cs) ∧
    ∀ o, ((Call.needsClientInstall o).perform (final step p cs)).events = [] ↔
      (final Memory.after p.memory (log p cs)).alive = true ∨
        (final Memory.after p.memory (log p cs)).failure = some o.installed := by
  refine ⟨remembered p cs, fun o => ?_⟩
  rw [(log_remembers p cs).2]
  exact needsClientInstall_idle_iff

end Runs

section Replacement

def Event.isReplaced : Event → Bool
  | .replaced _ => true
  | _ => false

/-- A process replaces itself in an environment that was not marked, marks it, and has the client
directory on the library path then. A marked environment stays. -/
structure Marks (e : Environment) (d : Done κ) : Prop where
  count : d.events.countP Event.isReplaced + e.bootstrapped.toNat ≤
    d.process.env.bootstrapped.toNat
  path : ∀ dir, .replaced dir ∈ d.events →
    (ldLibraryPathContains d.process.env dir = true ↔ ':' ∉ dir)
  stays : e.bootstrapped = true → d.process.env = e

variable {e : Environment} {o : Outside κ} {p : Process κ} {d : Done κ} {dir : Text} {i : Bool}

theorem contains_front {cur : Text} :
    ldLibraryPathContains ⟨some (dir ++ ':' :: cur), true⟩ dir = true ↔ ':' ∉ dir := by
  simp only [ldLibraryPathContains, Bool.and_eq_true, List.contains_iff_mem]
  constructor
  · rintro ⟨-, hmem⟩
    exact not_mem_of_splitOn hmem
  · intro hcolon
    rw [List.splitOn_append_cons_self_of_not_mem hcolon]
    exact ⟨by simp, List.mem_cons_self⟩

theorem contains_only (hdir : dir ≠ []) :
    ldLibraryPathContains ⟨some dir, true⟩ dir = true ↔ ':' ∉ dir := by
  simp only [ldLibraryPathContains, Bool.and_eq_true, List.contains_iff_mem]
  constructor
  · rintro ⟨-, hmem⟩
    exact not_mem_of_splitOn hmem
  · intro hcolon
    rw [List.splitOn_eq_singleton hcolon]
    exact ⟨by simpa using hdir, List.mem_singleton_self dir⟩

theorem reexec_cases (hdir : dir ≠ []) : reexecWithLdLibraryPath dir o e = (e, false) ∨
    e.bootstrapped = false ∧ (reexecWithLdLibraryPath dir o e).1.bootstrapped = true ∧
      (ldLibraryPathContains (reexecWithLdLibraryPath dir o e).1 dir = true ↔ ':' ∉ dir) := by
  unfold reexecWithLdLibraryPath
  split_ifs with hmarked
  · exact .inl rfl
  · refine .inr ⟨by simpa using hmarked, rfl, ?_⟩
    dsimp only
    split
    · exact contains_front
    · exact contains_only hdir

theorem prepareLibrary_cases :
    ((prepareLibrary o p).1.env = p.env ∧ (prepareLibrary o p).2 = false) ∨
      p.env.bootstrapped = false ∧ (prepareLibrary o p).1.env.bootstrapped = true ∧
        (ldLibraryPathContains (prepareLibrary o p).1.env o.installDir = true ↔
          ':' ∉ o.installDir) := by
  unfold prepareLibrary
  dsimp only
  split_ifs
  · obtain heq | hmarks := reexec_cases (o := o) (e := p.env) o.dir_ne
    · exact .inl ⟨by rw [heq], by rw [heq]⟩
    · exact .inr hmarks
  · exact .inl ⟨rfl, rfl⟩

theorem marks_of_quiet (hquiet : ∀ x ∈ d.events, x.isReplaced = false)
    (henv : d.process.env = e ∨ e.bootstrapped = false ∧ d.process.env.bootstrapped = true) :
    Marks e d := by
  have hcount : d.events.countP Event.isReplaced = 0 :=
    List.countP_eq_zero.mpr fun x hx => by simp [hquiet x hx]
  refine ⟨?_, fun dir hdir => absurd (hquiet _ hdir) (by simp [Event.isReplaced]), ?_⟩
  · rw [hcount, Nat.zero_add]
    obtain heq | ⟨hfresh, hmarked⟩ := henv
    · rw [heq]
    · simp [hfresh, hmarked]
  · intro hmarked
    exact henv.resolve_right fun h => by simp [hmarked] at h

theorem createWithParams_env : (createWithParams i o p).process.env = p.env := by
  unfold createWithParams
  split <;> rfl

theorem createWithParams_quiet : ∀ x ∈ (createWithParams i o p).events, x.isReplaced = false := by
  unfold createWithParams
  split <;> simp [Event.isReplaced]

theorem createContext_marks : Marks p.env (createContext i o p) := by
  unfold createContext
  dsimp only
  split_ifs with hfailed hinstalled hgone
  · exact marks_of_quiet (by simp) (.inl rfl)
  · obtain ⟨-, hstays⟩ | ⟨hfresh, hmarked, hpath⟩ := prepareLibrary_cases (o := o) (p := p)
    · exact absurd hgone (by simp [hstays])
    · refine ⟨by simp [Event.isReplaced, hfresh, hmarked], ?_, by simp [hfresh]⟩
      intro dir hdir
      obtain rfl : dir = o.installDir := by simpa using hdir
      exact hpath
  · refine marks_of_quiet createWithParams_quiet ?_
    rw [createWithParams_env]
    exact prepareLibrary_cases.imp And.left fun h => ⟨h.1, h.2.1⟩
  · exact marks_of_quiet createWithParams_quiet (.inl createWithParams_env)

theorem getDpiContext_marks (allowInstall : Bool) :
    Marks p.env (getDpiContext allowInstall o p) := by
  unfold getDpiContext
  dsimp only
  split
  · exact marks_of_quiet (by simp) (.inl rfl)
  · split_ifs
    · have hmarks := createContext_marks (o := o) (i := o.installedAfter)
        (p := { p with state := { p.state with autoInstallAttempted := true } })
      exact ⟨hmarks.count, fun dir hdir => hmarks.path dir (by simpa using hdir), hmarks.stays⟩
    · exact marks_of_quiet (by simp [Event.isReplaced]) (.inl rfl)
    · exact createContext_marks

theorem perform_marks (c : Call κ) : Marks p.env (c.perform p) := by
  cases c with
  | connect o => exact getDpiContext_marks true
  | needsClientInstall o => exact getDpiContext_marks false
  | setClientOptions options => exact marks_of_quiet (by simp [Call.perform]) (.inl rfl)
  | resetContext =>
    exact marks_of_quiet (by simp [Call.perform, Event.isReplaced]) (.inl rfl)

theorem env_stays (cs : List (Call κ)) (h : p.env.bootstrapped = true) :
    (final step p cs).env = p.env := by
  induction cs generalizing p with
  | nil => rfl
  | cons c cs ih =>
    have hstep : (step p c).env = p.env := (perform_marks c).stays h
    exact (ih (hstep ▸ h)).trans hstep

theorem count_log (p : Process κ) (cs : List (Call κ)) :
    (log p cs).countP Event.isReplaced + p.env.bootstrapped.toNat ≤
      (final step p cs).env.bootstrapped.toNat := by
  induction cs generalizing p with
  | nil => simp [log]
  | cons c cs ih =>
    have hhead := (perform_marks (p := p) c).count
    have htail := ih (step p c)
    rw [log, List.countP_append, final_cons]
    change _ ≤ (step p c).env.bootstrapped.toNat at hhead
    omega

/-- Over all processes that replace one another there is at most one replacement, and none where
the environment is marked. The client directory is then on the library path, unless a colon is in
its name. -/
theorem replaced_once (p : Process κ) (cs : List (Call κ)) :
    (log p cs).countP Event.isReplaced + p.env.bootstrapped.toNat ≤ 1 ∧
      ∀ dir, .replaced dir ∈ log p cs →
        (ldLibraryPathContains (final step p cs).env dir = true ↔ ':' ∉ dir) := by
  refine ⟨(count_log p cs).trans (Bool.toNat_le _), fun dir hdir => ?_⟩
  induction cs generalizing p with
  | nil => simp [log] at hdir
  | cons c cs ih =>
    rw [log, List.mem_append] at hdir
    rw [final_cons]
    obtain hdir | hdir := hdir
    · have hmarks := perform_marks (p := p) c
      have hone : 0 < (c.perform p).events.countP Event.isReplaced :=
        List.countP_pos_iff.mpr ⟨_, hdir, rfl⟩
      have hmarked : (step p c).env.bootstrapped = true := by
        have := hmarks.count
        change _ ≤ (step p c).env.bootstrapped.toNat at this
        by_contra hnot
        rw [Bool.eq_false_iff.mpr hnot, Bool.toNat_false] at this
        omega
      rw [env_stays cs hmarked]
      exact hmarks.path dir hdir
    · exact ih (step p c) hdir

end Replacement

end DearSql.Oracle.Client
