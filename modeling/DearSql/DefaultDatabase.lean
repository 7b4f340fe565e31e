import DearSql.Runs
import DearSql.SqlBuilder

/-! `ConnectionImpl` of the MSSQL, PostgreSQL and MySQL backends: the handle cache, the
default database, and the calls that create, drop and rename databases on the server. -/
namespace DearSql.Databases
open Runs

/-- A call, and whether the server and the network let it through. -/
inductive Op
  | createDatabase (name : Text) (ok : Bool)
  | dropDatabase (name : Text) (ok : Bool)
  | renameDatabase (oldName newName : Text) (ok : Bool)
  deriving DecidableEq

/-- `info_.database` and the names of the cached handles, beside the server's databases. -/
structure ConnectionImpl where
  type : DatabaseType
  database : Text
  cache : List (Text × Text) := []
  dbs : List Text
  deriving DecidableEq

inductive Command
  | create (name : Text)
  | drop (name : Text)
  | rename (oldName newName : Text)

def maintenanceDatabase : DatabaseType → Text
  | .COCKROACHDB => "defaultdb".toList
  | .REDSHIFT => "dev".toList
  | _ => "postgres".toList

def master : Text := "master".toList

section Server
variable (fold : Text → Text)

/-- Names that the server's collation folds to one text are one database. -/
def known (dbs : List Text) (name : Text) : Bool := dbs.any (fold · = fold name)

/-- MySQL opens sessions of no database. -/
def opens (type : DatabaseType) (dbs : List Text) (session : Text) : Bool :=
  (isMySQLFamily type && session = []) || known fold dbs session

/-- Whether the server runs a command in a session of the database `session`.
Only MySQL lets a session drop the database it is in. -/
def accepts (type : DatabaseType) (dbs : List Text) (session : Text) (ok : Bool) :
    Command → Bool
  | .create name => ok && opens fold type dbs session && name ≠ [] && !known fold dbs name
  | .drop name => ok && opens fold type dbs session && name ≠ [] && known fold dbs name &&
      (isMySQLFamily type || fold name ≠ fold session)
  | .rename oldName newName => ok && opens fold type dbs session && newName ≠ [] &&
      known fold dbs oldName && (!known fold dbs newName || fold newName = fold oldName) &&
      fold oldName ≠ fold session

def apply (dbs : List Text) : Command → List Text
  | .create name => name :: dbs
  | .drop name => dbs.filter (fold · ≠ fold name)
  | .rename oldName newName => dbs.map fun d => if fold d = fold oldName then newName else d

end Server

namespace ConnectionImpl

section Handles
variable (c : ConnectionImpl)

def forget (name : Text) : ConnectionImpl := { c with cache := c.cache.filter (·.1 ≠ name) }

/-- `database(name)`: the connection and the name of the handle. -/
def databaseHandle (name : Text) : ConnectionImpl × Text :=
  let n := if name = [] then c.database else name
  match c.cache.lookup n with
  | some h => (c, h)
  | none => ({ c with cache := (n, n) :: c.cache }, n)

end Handles

variable (fold : Text → Text) (c : ConnectionImpl)

/-- A command in a session of `session`: the connection after it, if it is accepted. -/
def exec (session : Text) (ok : Bool) (cmd : Command) : Option ConnectionImpl :=
  if accepts fold c.type c.dbs session ok cmd then
    some { c with dbs := apply fold c.dbs cmd }
  else none

section MSSQL

def execOnMaster (ok : Bool) (cmd : Command) : Option ConnectionImpl :=
  c.exec fold master ok cmd

def mssqlCreate (name : Text) (ok : Bool) : ConnectionImpl :=
  if name = [] then c else (c.execOnMaster fold ok (.create name)).getD c

def mssqlDrop (name : Text) (ok : Bool) : ConnectionImpl :=
  if name = [] then c
  else match (c.forget name).execOnMaster fold ok (.drop name) with
    | none => c.forget name
    | some d => if name = d.database then { d with database := master } else d

def mssqlRename (oldName newName : Text) (ok : Bool) : ConnectionImpl :=
  ((c.forget oldName).execOnMaster fold ok (.rename oldName newName)).getD (c.forget oldName)

end MSSQL

section PostgreSQL

def postgresCreate (name : Text) (ok : Bool) : ConnectionImpl :=
  if name = [] then c
  else
    let (d, session) := c.databaseHandle []
    (d.exec fold session ok (.create name)).getD d

def postgresDrop (name : Text) (ok : Bool) : ConnectionImpl :=
  let (d, session) := (c.forget name).databaseHandle []
  if name = c.database then
    let via := maintenanceDatabase c.type
    match d.exec fold via ok (.drop name) with
    | none => d
    | some e => { e with database := via, cache := (via, via) :: (e.forget via).cache }
  else (d.exec fold session ok (.drop name)).getD d

def postgresRename (oldName newName : Text) (ok : Bool) : ConnectionImpl :=
  let (d, session) := (c.forget oldName).databaseHandle []
  (d.exec fold session ok (.rename oldName newName)).getD d

end PostgreSQL

section MySQL

def mysqlCreate (name : Text) (ok : Bool) : ConnectionImpl :=
  let (d, session) := c.databaseHandle []
  if name = [] then d else (d.exec fold session ok (.create name)).getD d

def mysqlDrop (name : Text) (ok : Bool) : ConnectionImpl :=
  if name = c.database then
    match (c.forget name).exec fold [] ok (.drop name) with
    | none => c.forget name
    | some d => { d with database := [] }
  else
    let (d, session) := (c.forget name).databaseHandle []
    (d.exec fold session ok (.drop name)).getD d

end MySQL

def step (c : ConnectionImpl) : Op → ConnectionImpl
  | .createDatabase name ok =>
    if isPostgresFamily c.type then c.postgresCreate fold name ok
    else if isMySQLFamily c.type then c.mysqlCreate fold name ok
    else if c.type = .MSSQL then c.mssqlCreate fold name ok
    else c
  | .dropDatabase name ok =>
    if isPostgresFamily c.type then c.postgresDrop fold name ok
    else if isMySQLFamily c.type then c.mysqlDrop fold name ok
    else if c.type = .MSSQL then c.mssqlDrop fold name ok
    else c
  | .renameDatabase oldName newName ok =>
    if isPostgresFamily c.type then c.postgresRename fold oldName newName ok
    else if c.type = .MSSQL then c.mssqlRename fold oldName newName ok
    else c

/-- Each handle is cached under its own name. -/
def CachedByName : Prop := ∀ p ∈ c.cache, p.2 = p.1

/-- `database("")` names a database of the server, or on MySQL no schema. -/
def DefaultExists : Prop :=
  known fold c.dbs (c.databaseHandle []).2 = true ∨
    isMySQLFamily c.type = true ∧ (c.databaseHandle []).2 = []

instance : Decidable (c.DefaultExists fold) :=
  inferInstanceAs (Decidable (_ = true ∨ _ = true ∧ _ = []))

/-- Where a command goes that does not name the default itself. -/
def home : Text := if c.type = .MSSQL then master else c.database

/-- The calls that do not take the default away: a database is not renamed on MSSQL while
it is the default, and the default is dropped under the connection's own spelling of it. -/
def Keeps (c : ConnectionImpl) : Op → Prop
  | .createDatabase _ _ => True
  | .dropDatabase name ok =>
    ¬(isMySQLFamily c.type = true ∧ c.database = []) →
      accepts fold c.type c.dbs c.home ok (.drop name) = true →
        fold name = fold c.database → name = c.database
  | .renameDatabase oldName newName ok =>
    c.type = .MSSQL → accepts fold c.type c.dbs master ok (.rename oldName newName) = true →
      fold oldName = fold c.database → fold newName = fold oldName

/-! What one call does to the default and to the server's list. -/

structure Becomes (r : ConnectionImpl) (database : Text) (dbs : List Text) : Prop where
  type : r.type = c.type
  named : r.CachedByName
  database : r.database = database
  dbs : r.dbs = dbs

variable {fold} {c} {d r : ConnectionImpl} {name oldName newName session moved database : Text}
  {dbs : List Text} {ok : Bool} {cmd : Command} {op : Op}

@[simp] theorem forget_database : (c.forget name).database = c.database := rfl

theorem cachedByName_forget (h : c.CachedByName) (name : Text) : (c.forget name).CachedByName :=
  fun p hp => h p (List.mem_filter.mp hp).1

theorem becomes_forget (h : c.CachedByName) (name : Text) :
    c.Becomes (c.forget name) c.database c.dbs :=
  ⟨rfl, cachedByName_forget h name, rfl, rfl⟩

theorem lookup_eq (h : c.CachedByName) {n v : Text} (hv : c.cache.lookup n = some v) :
    v = n := by
  obtain ⟨l₁, l₂, hl, -⟩ := List.lookup_eq_some_iff.mp hv
  exact h (n, v) (by simp [hl])

theorem databaseHandle_nil (h : c.CachedByName) : (c.databaseHandle []).2 = c.database := by
  unfold databaseHandle
  cases hl : c.cache.lookup c.database with
  | none => simp [hl]
  | some v => simp [hl, lookup_eq h hl]

theorem becomes_databaseHandle (h : c.CachedByName) (name : Text) :
    c.Becomes (c.databaseHandle name).1 c.database c.dbs := by
  unfold databaseHandle
  dsimp only
  split
  · exact ⟨rfl, h, rfl, rfl⟩
  · refine ⟨rfl, fun p hp => ?_, rfl, rfl⟩
    rcases List.mem_cons.mp hp with rfl | hp
    · rfl
    · exact h p hp

theorem Becomes.trans (h : c.Becomes d c.database c.dbs)
    (h' : d.Becomes r database dbs) : c.Becomes r database dbs :=
  ⟨h'.type.trans h.type, h'.named, h'.database, h'.dbs⟩

/-- The server refuses the command, or runs it and the default becomes `moved`. -/
inductive Outcome (fold : Text → Text) (c r : ConnectionImpl) (session : Text) (ok : Bool)
    (cmd : Command) (moved : Text) : Prop
  | refused (h : accepts fold c.type c.dbs session ok cmd = false)
      (b : c.Becomes r c.database c.dbs)
  | done (h : accepts fold c.type c.dbs session ok cmd = true)
      (b : c.Becomes r moved (apply fold c.dbs cmd))

theorem Outcome.of_becomes (h : c.Becomes d c.database c.dbs)
    (h' : Outcome fold d r session ok cmd moved) : Outcome fold c r session ok cmd moved := by
  obtain ⟨ht, -, hd, hs⟩ := id h
  cases h' with
  | refused ha b =>
    rw [ht, hs] at ha
    rw [hd, hs] at b
    exact .refused ha (h.trans b)
  | done ha b =>
    rw [ht, hs] at ha
    rw [hs] at b
    exact .done ha (h.trans b)

theorem outcome_exec (h : c.CachedByName) :
    Outcome fold c ((c.exec fold session ok cmd).getD c) session ok cmd c.database := by
  cases ha : accepts fold c.type c.dbs session ok cmd with
  | false => exact .refused ha (by simpa [exec, ha] using ⟨rfl, h, rfl, rfl⟩)
  | true => exact .done ha (by simpa [exec, ha] using ⟨rfl, h, rfl, rfl⟩)

section Outcomes

theorem outcome_mssqlDrop (h : c.CachedByName) (hn : name ≠ []) :
    Outcome fold c (c.mssqlDrop fold name ok) master ok (.drop name)
      (if name = c.database then master else c.database) := by
  apply Outcome.of_becomes (becomes_forget h name)
  unfold mssqlDrop execOnMaster exec
  rw [if_neg hn]
  cases ha : accepts fold (c.forget name).type (c.forget name).dbs master ok (.drop name) with
  | false =>
    exact .refused ha (by simpa [ha] using ⟨rfl, cachedByName_forget h name, rfl, rfl⟩)
  | true =>
    refine .done ha ?_
    simp only [if_true, forget_database]
    by_cases hd : name = c.database
    · rw [if_pos hd, if_pos hd]
      exact ⟨rfl, cachedByName_forget h name, rfl, rfl⟩
    · rw [if_neg hd, if_neg hd]
      exact ⟨rfl, cachedByName_forget h name, rfl, rfl⟩

theorem outcome_mssqlRename (h : c.CachedByName) :
    Outcome fold c (c.mssqlRename fold oldName newName ok) master ok
      (.rename oldName newName) c.database :=
  .of_becomes (becomes_forget h oldName) (outcome_exec (cachedByName_forget h oldName))

/-- A command in the session of the default handle. -/
theorem outcome_default (h : c.CachedByName) :
    Outcome fold c
      (((c.databaseHandle []).1.exec fold (c.databaseHandle []).2 ok cmd).getD
        (c.databaseHandle []).1) c.database ok cmd c.database := by
  have b := becomes_databaseHandle h []
  rw [databaseHandle_nil h]
  have run : Outcome fold (c.databaseHandle []).1 (((c.databaseHandle []).1.exec fold c.database ok
      cmd).getD (c.databaseHandle []).1) c.database ok cmd (c.databaseHandle []).1.database :=
    outcome_exec b.named
  rw [b.database] at run
  exact run.of_becomes b

theorem outcome_postgresDrop (h : c.CachedByName) :
    Outcome fold c (c.postgresDrop fold name ok)
      (if name = c.database then maintenanceDatabase c.type else c.database) ok (.drop name)
      (if name = c.database then maintenanceDatabase c.type else c.database) := by
  apply Outcome.of_becomes (becomes_forget h name)
  have hf := cachedByName_forget h name
  unfold postgresDrop
  by_cases hd : name = c.database
  · have b := becomes_databaseHandle hf []
    simp only [if_pos hd]
    apply Outcome.of_becomes b
    generalize ((c.forget name).databaseHandle []).1 = d at b ⊢
    unfold exec
    cases ha : accepts fold d.type d.dbs (maintenanceDatabase c.type) ok (.drop name) with
    | false => exact .refused ha ⟨rfl, b.named, rfl, rfl⟩
    | true =>
      refine .done ha ⟨rfl, fun p hp => ?_, rfl, rfl⟩
      rcases List.mem_cons.mp hp with rfl | hp
      · rfl
      · exact b.named p (List.mem_filter.mp hp).1
  · simp only [if_neg hd]
    exact outcome_default hf

theorem outcome_postgresRename (h : c.CachedByName) :
    Outcome fold c (c.postgresRename fold oldName newName ok) c.database ok
      (.rename oldName newName) c.database :=
  .of_becomes (becomes_forget h oldName) (outcome_default (cachedByName_forget h oldName))

theorem outcome_mysqlDrop (h : c.CachedByName) :
    Outcome fold c (c.mysqlDrop fold name ok)
      (if name = c.database then [] else c.database) ok (.drop name)
      (if name = c.database then [] else c.database) := by
  apply Outcome.of_becomes (becomes_forget h name)
  have hf := cachedByName_forget h name
  unfold mysqlDrop
  by_cases hd : name = c.database
  · simp only [if_pos hd, exec]
    cases ha : accepts fold (c.forget name).type (c.forget name).dbs [] ok (.drop name) with
    | false => exact .refused ha ⟨rfl, hf, rfl, rfl⟩
    | true => exact .done ha ⟨rfl, hf, rfl, rfl⟩
  · simp only [if_neg hd]
    exact outcome_default hf

/-- Creating a database leaves the default and adds at most one name to the list. -/
theorem becomes_create (h : c.CachedByName) :
    c.Becomes (c.step fold (.createDatabase name ok)) c.database c.dbs ∨
      c.Becomes (c.step fold (.createDatabase name ok)) c.database (name :: c.dbs) := by
  have of_outcome {r session} (o : Outcome fold c r session ok (.create name) c.database) :
      c.Becomes r c.database c.dbs ∨ c.Becomes r c.database (name :: c.dbs) := by
    cases o with
    | refused _ b => exact .inl b
    | done _ b => exact .inr b
  have same : c.Becomes c c.database c.dbs := ⟨rfl, h, rfl, rfl⟩
  simp only [step]
  split_ifs
  · unfold postgresCreate
    split_ifs
    · exact .inl same
    · exact of_outcome (outcome_default h)
  · unfold mysqlCreate
    dsimp only
    split_ifs
    · exact .inl (becomes_databaseHandle h [])
    · exact of_outcome (outcome_default h)
  · unfold mssqlCreate
    split_ifs
    · exact .inl same
    · exact of_outcome (outcome_exec h)
  · exact .inl same

end Outcomes

section Existence

theorem known_drop (m : Text) :
    known fold (apply fold dbs (.drop name)) m = true ↔
      known fold dbs m = true ∧ fold name ≠ fold m := by
  simp only [known, apply, List.any_eq_true, List.mem_filter, decide_eq_true_eq]
  constructor
  · rintro ⟨d, ⟨hd, hn⟩, hm⟩
    exact ⟨⟨d, hd, hm⟩, fun h => hn (hm.trans h.symm)⟩
  · rintro ⟨⟨d, hd, hm⟩, hn⟩
    exact ⟨d, ⟨hd, fun h => hn (h.symm.trans hm)⟩, hm⟩

theorem known_rename (m : Text) :
    known fold (apply fold dbs (.rename oldName newName)) m = true ↔
      known fold dbs m = true ∧ fold oldName ≠ fold m ∨
        known fold dbs oldName = true ∧ fold newName = fold m := by
  simp only [known, apply, List.any_map, List.any_eq_true, Function.comp_apply,
    decide_eq_true_eq]
  constructor
  · rintro ⟨d, hd, hm⟩
    by_cases ho : fold d = fold oldName
    · rw [if_pos ho] at hm
      exact .inr ⟨⟨d, hd, ho⟩, hm⟩
    · rw [if_neg ho] at hm
      exact .inl ⟨⟨d, hd, hm⟩, fun h => ho (hm.trans h.symm)⟩
  · rintro (⟨⟨d, hd, hm⟩, ho⟩ | ⟨⟨d, hd, ho⟩, hm⟩)
    · exact ⟨d, hd, by rwa [if_neg fun h => ho (h.symm.trans hm)]⟩
    · exact ⟨d, hd, by rwa [if_pos ho]⟩

theorem Becomes.defaultExists_iff (b : c.Becomes r database dbs) :
    r.DefaultExists fold ↔
      known fold dbs database = true ∨ isMySQLFamily c.type = true ∧ database = [] := by
  rw [DefaultExists, databaseHandle_nil b.named, b.type, b.database, b.dbs]

theorem defaultExists_iff (h : c.CachedByName) :
    c.DefaultExists fold ↔
      known fold c.dbs c.database = true ∨ isMySQLFamily c.type = true ∧ c.database = [] :=
  Becomes.defaultExists_iff ⟨rfl, h, rfl, rfl⟩

/-- A drop by another name than the default's goes through `home` and leaves
`info_.database`; one by the default's own name must end at something that exists. -/
theorem Outcome.drop_iff (h : c.CachedByName) (he : c.DefaultExists fold)
    (o : Outcome fold c r session ok (.drop name) moved)
    (other : name ≠ c.database → session = c.home ∧ moved = c.database)
    (own : name = c.database →
      accepts fold c.type c.dbs session ok (.drop name) = true →
        known fold c.dbs moved = true ∧ fold name ≠ fold moved ∨
          isMySQLFamily c.type = true ∧ moved = []) :
    r.DefaultExists fold ↔ c.Keeps fold (.dropDatabase name ok) := by
  rw [defaultExists_iff h] at he
  by_cases hn : name = c.database
  · have keeps : c.Keeps fold (.dropDatabase name ok) := fun _ _ _ => hn
    refine iff_of_true ?_ keeps
    cases o with
    | refused _ b => exact b.defaultExists_iff.mpr he
    | done ha b =>
      rw [b.defaultExists_iff, known_drop]
      exact own hn ha
  · obtain ⟨rfl, rfl⟩ := other hn
    cases o with
    | refused ha b =>
      exact iff_of_true (b.defaultExists_iff.mpr he) fun _ ha' => by simp [ha] at ha'
    | done ha b =>
      rw [b.defaultExists_iff, known_drop]
      simp only [Keeps, ha, hn]
      tauto

theorem opens_known (hm : isMySQLFamily c.type = false)
    (h : opens fold c.type dbs session = true) : known fold dbs session = true := by
  simpa [opens, hm] using h

theorem not_mysql (h : isPostgresFamily c.type = true) : isMySQLFamily c.type = false := by
  cases ht : c.type <;> simp_all [isPostgresFamily, isMySQLFamily]

theorem drop_iff (h : c.CachedByName) (he : c.DefaultExists fold) :
    (c.step fold (.dropDatabase name ok)).DefaultExists fold ↔
      c.Keeps fold (.dropDatabase name ok) := by
  -- outside MySQL an accepted drop ran in a session of a database that stays
  have stays {s} (hm : isMySQLFamily c.type = false)
      (ha : accepts fold c.type c.dbs s ok (.drop name) = true) :
      known fold c.dbs s = true ∧ fold name ≠ fold s := by
    simp only [accepts, hm, Bool.and_eq_true, Bool.false_or, decide_eq_true_eq] at ha
    exact ⟨opens_known hm ha.1.1.1.2, ha.2⟩
  simp only [step]
  split_ifs with hp hm hs
  · have home : c.home = c.database := by
      unfold home; rw [if_neg (by rintro e; simp [e, isPostgresFamily] at hp)]
    refine (outcome_postgresDrop h).drop_iff h he (fun hn => ?_) fun _ ha => ?_
    · simp [hn, home]
    · exact .inl (stays (not_mysql hp) ha)
  · have home : c.home = c.database := by
      unfold home; rw [if_neg (by rintro e; simp [e, isMySQLFamily] at hm)]
    refine (outcome_mysqlDrop h).drop_iff h he (fun hn => ?_) fun hn _ => ?_
    · simp [hn, home]
    · exact .inr ⟨hm, if_pos hn⟩
  · have hm' : isMySQLFamily c.type = false := by simpa using hm
    by_cases hn : name = []
    · rw [mssqlDrop, if_pos hn]
      exact iff_of_true he fun _ ha => by simp [accepts, hn] at ha
    · refine (outcome_mssqlDrop h hn).drop_iff h he (fun hd => ?_) fun hd ha => ?_
      · simp [hd, home, hs]
      · rw [if_pos hd]
        exact .inl (stays hm' ha)
  · have hm' : isMySQLFamily c.type = false := by simpa using hm
    refine iff_of_true he fun _ ha hf => ?_
    rw [home, if_neg hs] at ha
    exact absurd hf (stays hm' ha).2

theorem rename_iff (h : c.CachedByName) (he : c.DefaultExists fold) :
    (c.step fold (.renameDatabase oldName newName ok)).DefaultExists fold ↔
      c.Keeps fold (.renameDatabase oldName newName ok) := by
  have he' := (defaultExists_iff h).mp he
  simp only [step]
  split_ifs with hp hs
  · have keeps : c.Keeps fold (.renameDatabase oldName newName ok) :=
      fun e => by simp [e, isPostgresFamily] at hp
    refine iff_of_true ?_ keeps
    have outcome : Outcome fold c (c.postgresRename fold oldName newName ok) c.database ok
        (.rename oldName newName) c.database := outcome_postgresRename h
    cases outcome with
    | refused _ b => exact b.defaultExists_iff.mpr he'
    | done ha b =>
      rw [b.defaultExists_iff, known_rename]
      simp only [accepts, Bool.and_eq_true, decide_eq_true_eq] at ha
      simp only [not_mysql hp] at he' ⊢
      exact .inl (.inl ⟨he'.resolve_right (by simp), ha.2⟩)
  · have hm : isMySQLFamily c.type = false := by simp [hs, isMySQLFamily]
    have hk : known fold c.dbs c.database = true := he'.resolve_right (by simp [hm])
    have outcome : Outcome fold c (c.mssqlRename fold oldName newName ok) master ok
        (.rename oldName newName) c.database := outcome_mssqlRename h
    cases outcome with
    | refused ha b =>
      exact iff_of_true (b.defaultExists_iff.mpr he') fun _ ha' => by simp [ha] at ha'
    | done ha b =>
      rw [b.defaultExists_iff, known_rename]
      have ho : known fold c.dbs oldName = true := by
        simp only [accepts, Bool.and_eq_true] at ha
        exact ha.1.1.2
      have keeps : c.Keeps fold (.renameDatabase oldName newName ok) ↔
          (fold oldName = fold c.database → fold newName = fold oldName) :=
        ⟨fun h => h hs ha, fun h _ _ => h⟩
      simp only [keeps, hk, ho, hm]
      by_cases hf : fold oldName = fold c.database
      · simp [hf]
      · simp [hf]
  · exact iff_of_true he fun e => absurd e hs

theorem step_iff (h : c.CachedByName) (he : c.DefaultExists fold) (op : Op) :
    (c.step fold op).DefaultExists fold ↔ c.Keeps fold op := by
  cases op with
  | dropDatabase name ok => exact drop_iff h he
  | renameDatabase oldName newName ok => exact rename_iff h he
  | createDatabase name ok =>
    refine iff_of_true ?_ trivial
    have he' := (defaultExists_iff h).mp he
    have created : c.Becomes (c.step fold (.createDatabase name ok)) c.database c.dbs ∨
        c.Becomes (c.step fold (.createDatabase name ok)) c.database (name :: c.dbs) :=
      becomes_create h
    rcases created with b | b
    · exact b.defaultExists_iff.mpr he'
    · refine b.defaultExists_iff.mpr (he'.imp_left fun hk => ?_)
      simp only [known, List.any_cons] at hk ⊢
      rw [hk, Bool.or_true]

theorem Outcome.named (o : Outcome fold c r session ok cmd moved) : r.CachedByName := by
  cases o with
  | refused _ b => exact b.named
  | done _ b => exact b.named

theorem step_cachedByName (h : c.CachedByName) (op : Op) : (c.step fold op).CachedByName := by
  cases op with
  | createDatabase name ok => exact (becomes_create h).elim (·.named) (·.named)
  | dropDatabase name ok =>
    simp only [step]
    split_ifs
    · exact (outcome_postgresDrop h).named
    · exact (outcome_mysqlDrop h).named
    · by_cases hn : name = []
      · rwa [mssqlDrop, if_pos hn]
      · exact (outcome_mssqlDrop h hn).named
    · exact h
  | renameDatabase oldName newName ok =>
    simp only [step]
    split_ifs
    · exact (outcome_postgresRename h).named
    · exact (outcome_mssqlRename h).named
    · exact h

/-- The calls up to any point of the run leave a default that exists, exactly when each
call of the run keeps it. -/
theorem default_exists_iff (h : c.CachedByName) (he : c.DefaultExists fold) (ops : List Op) :
    (∀ before, before <+: ops → (final (step fold) c before).DefaultExists fold) ↔
      Along (step fold) (Keeps fold) c ops := by
  induction ops generalizing c with
  | nil =>
    refine iff_of_true (fun before hb => ?_) trivial
    rw [List.prefix_nil.mp hb]
    exact he
  | cons op ops ih =>
    rw [along_cons, ← step_iff h he op]
    constructor
    · intro hall
      have hop : (c.step fold op).DefaultExists fold := hall [op] (by simp)
      refine ⟨hop, (ih (step_cachedByName h op) hop).mp fun before hb => ?_⟩
      exact hall (op :: before) (List.cons_prefix_cons.mpr ⟨rfl, hb⟩)
    · rintro ⟨hop, hall⟩ before hb
      cases before with
      | nil => exact he
      | cons o before =>
        obtain ⟨rfl, hb'⟩ := List.cons_prefix_cons.mp hb
        exact (ih (step_cachedByName h o) hop).mpr hall before hb'

/-- A PostgreSQL connection drops its own database, is moved to `postgres`, and cannot
rename that. -/
theorem default_exists_dropped_own :
    ¬∃ before, before <+: [Op.dropDatabase ['a', 'p', 'p'] true,
        .renameDatabase (maintenanceDatabase .POSTGRESQL) ['x'] true] ∧
      ¬(final (step id) ⟨.POSTGRESQL, ['a', 'p', 'p'], [],
        [['a', 'p', 'p'], maintenanceDatabase .POSTGRESQL]⟩ before).DefaultExists id := by
  rintro ⟨before, hb, hn⟩
  have keeps : Along (step id) (Keeps id) ⟨.POSTGRESQL, ['a', 'p', 'p'], [],
      [['a', 'p', 'p'], maintenanceDatabase .POSTGRESQL]⟩
      [Op.dropDatabase ['a', 'p', 'p'] true,
        .renameDatabase (maintenanceDatabase .POSTGRESQL) ['x'] true] :=
    ⟨fun _ _ _ => rfl, fun e => absurd e (by decide), trivial⟩
  exact hn ((default_exists_iff (by simp [CachedByName]) (by decide) _).mpr keeps
    before hb)

/-- MSSQL renames the connected database, and the connection still asks for the old name. -/
theorem default_renamed_away :
    DefaultExists id ⟨.MSSQL, ['a', 'p', 'p'], [], [['a', 'p', 'p'], master]⟩ ∧
      ¬(step id ⟨.MSSQL, ['a', 'p', 'p'], [], [['a', 'p', 'p'], master]⟩
        (.renameDatabase ['a', 'p', 'p'] ['b'] true)).DefaultExists id := by
  decide

end Existence

end ConnectionImpl
end DearSql.Databases
