import DearSql.QueryResult
import DearSql.Runs
import DearSql.Shadow

/-! `CassandraConnImpl`: handles of several keyspaces share one session, which has one
current keyspace. `activeKeyspace_` is the client's copy of it. -/
namespace DearSql.Cassandra
open Runs

/-- The statement that switches to a keyspace. -/
def useCommand (keyspace : Text) : Text := "USE ".toList ++ quoteIdent keyspace

/-- How the server reads a statement: the keyspace a `USE` names. -/
structure Server where
  used : Text → Option Text
  used_useCommand (k : Text) : '\x00' ∉ k → used (useCommand k) = some k

def Server.run (srv : Server) (current : Option Text) (cql : Text) (ok : Bool) : Option Text :=
  if ok then (srv.used cql).or current else current

/-- What a statement ends in; values are given as the texts they are shown as. -/
inductive Outcome
  | error (message : Text)
  | void
  | rows (columnNames : List Text) (rows : List (List Text))
  deriving DecidableEq, Repr

def Outcome.isOk : Outcome → Bool
  | .error _ => false
  | _ => true

def pagingSize (rowLimit : ℤ) : ℕ := if 0 < rowLimit then rowLimit.toNat else 1000

def Outcome.result (rowLimit : ℤ) : Outcome → StatementResult
  | .error m => failure m
  | .void => { message := "Query executed successfully".toList }
  | .rows cols rs =>
    let page := rs.take (pagingSize rowLimit)
    let data := if rowLimit ≤ 0 then page else page.take rowLimit.toNat
    { columnNames := cols, tableData := data, message := returnedRows data.length }

/-- A call of `execute` through the handle of `keyspace`, empty for the connection's own
statements; no keyspace has a NUL in its name. -/
structure Call where
  keyspace : Text
  cql : Text
  rowLimit : ℤ := 1000
  useOk : Bool := true
  outcome : Outcome := .void
  valid : '\x00' ∉ keyspace

/-- `session` holds the current keyspace of an open session. -/
structure CassandraConnImpl where
  session : Option (Option Text) := none
  activeKeyspace : Text := []
  deriving DecidableEq

structure Ran where
  conn : CassandraConnImpl
  result : QueryResult
  sent : Option (Option Text) := none

section Execute
variable (srv : Server) (conn : CassandraConnImpl)

def execute (c : Call) : Ran :=
  match conn.session with
  | none => { conn := conn, result := { statements := [failure "Not connected".toList] } }
  | some current =>
    let switch := c.keyspace ≠ [] ∧ c.keyspace ≠ conn.activeKeyspace
    let current := if switch then srv.run current (useCommand c.keyspace) c.useOk else current
    let active := if switch ∧ c.useOk = true then c.keyspace else conn.activeKeyspace
    { conn :=
        { session := some (srv.run current c.cql c.outcome.isOk), activeKeyspace := active }
      result := { statements := [c.outcome.result c.rowLimit] }
      sent := some current }

inductive Op
  | openSession (connects : Bool)
  | closeSession
  | execute (c : Call)

def step : Op → CassandraConnImpl
  | .openSession connects => { session := if connects then some none else none }
  | .closeSession => {}
  | .execute c => (execute srv conn c).conn

end Execute

section Limit
variable {srv : Server} {conn : CassandraConnImpl} {c : Call} {current : Option Text}
  {cols : List Text} {rs : List (List Text)}

/-- The rows a call is to return of those the statement has. -/
def wanted (rowLimit : ℤ) (rs : List (List Text)) : List (List Text) :=
  if 0 < rowLimit then rs.take rowLimit.toNat else rs

theorem execute_rows (hs : conn.session = some current) (ho : c.outcome = .rows cols rs) :
    (execute srv conn c).result.statements.map StatementResult.tableData =
      [if 0 < c.rowLimit then rs.take c.rowLimit.toNat else rs.take 1000] := by
  unfold execute
  rw [hs]
  simp only [ho, Outcome.result, pagingSize, List.map_cons, List.map_nil]
  by_cases hl : 0 < c.rowLimit
  · simp [hl, not_le.mpr hl, List.take_take]
  · simp [hl, not_lt.mp hl]

/-- Only the first page is read: without a limit, rows beyond it are lost. -/
theorem execute_wanted_iff (hs : conn.session = some current) (ho : c.outcome = .rows cols rs) :
    (execute srv conn c).result.statements.map StatementResult.tableData = [wanted c.rowLimit rs] ↔
      0 < c.rowLimit ∨ rs.length ≤ 1000 := by
  rw [execute_rows hs ho, wanted]
  by_cases hl : 0 < c.rowLimit
  · simp [hl]
  · simp [hl, List.take_eq_self_iff]

end Limit

/-- The client's copy beside the current keyspace. -/
def shadow (conn : CassandraConnImpl) : Shadow (Option Text) where
  cached := if conn.activeKeyspace = [] then none else some (some conn.activeKeyspace)
  actual := conn.session.join

/-- The keyspace the client believes in when it sends the statement. -/
def home (conn : CassandraConnImpl) (c : Call) : Text :=
  if c.keyspace = [] then conn.activeKeyspace else c.keyspace

/-- No implicit `USE` is refused, and no statement moves the session away from the
keyspace the client believes in. -/
structure Undisturbed (srv : Server) (conn : CassandraConnImpl) (c : Call) : Prop where
  switched : conn.session ≠ none → c.keyspace ≠ [] → c.keyspace ≠ conn.activeKeyspace →
    c.useOk = true
  kept (k : Text) : conn.session ≠ none → c.outcome.isOk = true → srv.used c.cql = some k →
    home conn c = [] ∨ k = home conn c

/-- A statement that is sent meets its handle's keyspace; one that is not has failed. -/
def InKeyspace (srv : Server) (conn : CassandraConnImpl) (c : Call) : Prop :=
  c.keyspace ≠ [] →
    (∀ current, (execute srv conn c).sent = some current → current = some c.keyspace) ∧
      ((execute srv conn c).sent = none → (execute srv conn c).result.success = false)

section Refinement
variable {srv : Server} {conn : CassandraConnImpl} {c : Call}

theorem cached_iff (h : c.keyspace ≠ []) :
    (shadow conn).cached = some (some c.keyspace) ↔ c.keyspace = conn.activeKeyspace := by
  by_cases ha : conn.activeKeyspace = []
  · simp [shadow, ha, h]
  · simp [shadow, ha, eq_comm]

/-- Through a keyspace handle `execute` is a guarded action on the copy. -/
theorem execute_refines (hs : conn.session ≠ none) (hk : c.keyspace ≠ []) :
    (execute srv conn c).sent =
        some ((shadow conn).ensure (some c.keyspace) c.useOk).actual ∧
      shadow (execute srv conn c).conn =
        ((shadow conn).ensure (some c.keyspace) c.useOk).act
          (srv.run ((shadow conn).ensure (some c.keyspace) c.useOk).actual c.cql c.outcome.isOk)
          false := by
  obtain ⟨current, hcur⟩ := Option.ne_none_iff_exists'.mp hs
  have hact : (shadow conn).actual = current := by simp [shadow, hcur]
  by_cases hc : c.keyspace = conn.activeKeyspace
  · have hens := @Shadow.ensure_of_cached _ _ _ _ c.useOk ((cached_iff hk).mpr hc)
    rw [hens, hact]
    simp [execute, hcur, hc, shadow, Shadow.act]
  · have hn : ¬ (shadow conn).cached = some (some c.keyspace) := fun h => hc ((cached_iff hk).mp h)
    cases hu : c.useOk with
    | false =>
      simp only [Shadow.ensure, if_neg hn, Bool.false_eq_true, if_false, hact]
      simp [execute, hcur, hk, hc, hu, Server.run, shadow, Shadow.act]
    | true =>
      simp only [Shadow.ensure, if_neg hn, if_true, Shadow.record]
      simp [execute, hcur, hk, hc, hu, Server.run, srv.used_useCommand _ c.valid, shadow,
        Shadow.act]

theorem execute_own (hs : conn.session ≠ none) (hk : c.keyspace = []) :
    shadow (execute srv conn c).conn =
      (shadow conn).act (srv.run (shadow conn).actual c.cql c.outcome.isOk) false := by
  obtain ⟨current, hcur⟩ := Option.ne_none_iff_exists'.mp hs
  simp [execute, hcur, hk, shadow, Shadow.act]

theorem run_eq_or (srv : Server) (current : Option Text) (cql : Text) (ok : Bool) :
    srv.run current cql ok = current ∨
      ∃ k, ok = true ∧ srv.used cql = some k ∧ srv.run current cql ok = some k := by
  cases ok with
  | false => exact Or.inl rfl
  | true =>
    cases hu : srv.used cql with
    | none => exact Or.inl (by simp [Server.run, hu])
    | some k => exact Or.inr ⟨k, rfl, rfl, by simp [Server.run, hu]⟩

theorem Undisturbed.ready (h : Undisturbed srv conn c) (hs : conn.session ≠ none)
    (hk : c.keyspace ≠ []) : (shadow conn).Ready (some c.keyspace) c.useOk := by
  by_cases hc : c.keyspace = conn.activeKeyspace
  · exact Or.inl ((cached_iff hk).mpr hc)
  · exact Or.inr (h.switched hs hk hc)

theorem Undisturbed.sound (h : Undisturbed srv conn c) (hi : (shadow conn).Sound) :
    (shadow (execute srv conn c).conn).Sound := by
  by_cases hs : conn.session = none
  · have he : (execute srv conn c).conn = conn := by simp [execute, hs]
    rw [he]
    exact hi
  by_cases hk : c.keyspace = []
  · rw [execute_own hs hk]
    rcases run_eq_or srv (shadow conn).actual c.cql c.outcome.isOk with hr | ⟨k, hok, hu, hr⟩
    · rw [hr]
      exact Shadow.act_sound hi (Or.inr rfl)
    · rw [hr]
      by_cases hne : conn.activeKeyspace = []
      · intro p hp
        simp [Shadow.act, shadow, hne] at hp
      · have hhome := h.kept k hs hok hu
        simp only [home, hk, if_true, hne, false_or] at hhome
        rw [hhome]
        exact Shadow.act_sound hi (Or.inr (hi _ (if_neg hne)).symm)
  · rw [(execute_refines hs hk).2]
    apply Shadow.ensure_act_sound hi (h.ready hs hk)
    right
    rw [Shadow.ensure_actual hi (h.ready hs hk)]
    rcases run_eq_or srv (some c.keyspace) c.cql c.outcome.isOk with hr | ⟨k, hok, hu, hr⟩
    · exact hr
    · rw [hr]
      have hhome := h.kept k hs hok hu
      simp only [home, hk, if_false, false_or] at hhome
      rw [hhome]

theorem Undisturbed.inKeyspace (h : Undisturbed srv conn c) (hi : (shadow conn).Sound) :
    InKeyspace srv conn c := by
  intro hk
  by_cases hs : conn.session = none
  · refine ⟨?_, fun _ => ?_⟩
    · intro current hsent
      simp [execute, hs] at hsent
    · simp only [execute, hs]
      rfl
  · have hsent := (@execute_refines srv _ _ hs hk).1
    rw [Shadow.ensure_actual hi (h.ready hs hk)] at hsent
    refine ⟨fun current hc => ?_, fun hn => ?_⟩
    · rw [hsent] at hc
      exact (Option.some.inj hc).symm
    · rw [hsent] at hn
      exact absurd hn (by simp)

/-- In a run whose calls are undisturbed, every statement meets its handle's keyspace. -/
theorem undisturbed_calls_in_keyspace (srv : Server) (ops : List Op)
    (h : Along (step srv) (fun conn op => ∀ c, op = .execute c → Undisturbed srv conn c) {} ops) :
    Along (step srv) (fun conn op => ∀ c, op = .execute c → InKeyspace srv conn c) {} ops := by
  have hinit : ∀ s : Option (Option Text), (shadow { session := s }).Sound := by
    intro s k hk
    simp [shadow] at hk
  have hstep : ∀ conn op, (shadow conn).Sound →
      (∀ c, op = .execute c → Undisturbed srv conn c) → (shadow (step srv conn op)).Sound := by
    intro conn op hi hc
    cases op with
    | openSession connects => exact hinit _
    | closeSession => exact hinit _
    | execute c => exact (hc c rfl).sound hi
  exact h.of_invariant hstep (fun conn op hi hc c hop => (hc c hop).inKeyspace hi) (hinit none)

end Refinement

section PlainServer

def readUse (cql : Text) : Option Text :=
  if "USE \"".toList.isPrefixOf cql then
    match unquote (cql.drop 5) with
    | some (k, []) => some k
    | _ => none
  else none

/-- A server on which only the quoted form switches. -/
def plainServer : Server where
  used := readUse
  used_useCommand k _ := by
    have hp : useCommand k = "USE \"".toList ++ (doubleQuotes k ++ ['"']) := rfl
    have hd : (useCommand k).drop 5 = doubleQuotes k ++ ['"'] := rfl
    have hpre : "USE \"".toList.isPrefixOf (useCommand k) = true := by
      rw [hp, List.isPrefixOf_iff_prefix]
      exact List.prefix_append _ _
    rw [readUse, if_pos hpre, hd, unquote_doubleQuotes]

def readIn (keyspace : Text) (useOk : Bool) (h : '\x00' ∉ keyspace) : Op :=
  .execute { keyspace := keyspace, cql := "SELECT * FROM t".toList, useOk := useOk, valid := h }

theorem two_keyspaces_in_turn :
    Along (step plainServer)
      (fun conn op => ∀ c, op = .execute c → InKeyspace plainServer conn c) {}
      [.openSession true, readIn ['a'] true (by decide), readIn ['b'] true (by decide)] := by
  have hread : readUse "SELECT * FROM t".toList = none := by decide
  apply undisturbed_calls_in_keyspace
  refine ⟨fun c h => Op.noConfusion h, ?_, ?_, trivial⟩
  all_goals
    intro c h
    obtain rfl := Op.execute.inj h
    exact ⟨fun _ _ _ => rfl, fun k _ _ hk => absurd (hread.symm.trans hk) (by simp)⟩

/-- The `USE` for a dropped keyspace is refused; the statement runs on the old one. -/
theorem refused_use_ignored :
    ¬ Along (step plainServer)
      (fun conn op => ∀ c, op = .execute c → InKeyspace plainServer conn c) {}
      [.openSession true, readIn ['a'] true (by decide), readIn ['b'] false (by decide)] := by
  rintro ⟨_, _, h, _⟩
  have hb := (h _ rfl (by decide)).1 (some ['a']) (by decide)
  exact absurd hb (by decide)

/-- A `SELECT` of `n` rows on an open session. -/
def selectRows (n : ℕ) (rowLimit : ℤ) : Call :=
  { keyspace := [], cql := "SELECT * FROM t".toList, rowLimit := rowLimit, valid := by decide
    outcome := .rows [['a']] (List.replicate n [['1']]) }

theorem execute_two_of_three :
    (execute plainServer { session := some none } (selectRows 3 2)).result.statements.map
      StatementResult.tableData = [wanted 2 (List.replicate 3 [['1']])] :=
  (execute_wanted_iff rfl rfl).mpr (.inl (by decide))

theorem execute_first_page_only :
    (execute plainServer { session := some none } (selectRows 1001 0)).result.statements.map
      StatementResult.tableData ≠ [wanted 0 (List.replicate 1001 [['1']])] := by
  rw [execute_rows rfl rfl]
  intro h
  have hlen := congrArg (List.map List.length) h
  simp only [selectRows, wanted, lt_irrefl, if_false, List.map_cons, List.map_nil, List.length_take,
    List.length_replicate, List.cons.injEq, and_true] at hlen
  omega

end PlainServer
end DearSql.Cassandra
