import DearSql.PgExecute
import DearSql.Shadow

/-! `searchPath_` as a copy of the session's `search_path`. The client drops the copy
after a failure and after a batch whose text names one of four words; the copy stays
right as long as nothing else moves the setting. -/
namespace DearSql.Pg
open Runs

namespace Session
variable {dflt : Path} {s : Session} {st : Stmt} {as : List Answer}

/-- No `SET LOCAL` outlives its transaction, and an aborted transaction has been undone. -/
structure WF (s : Session) : Prop where
  idle : s.tx = .idle → s.localPath = none
  aborted : s.tx = .aborted → s.localPath = none ∧ s.path = s.saved

theorem fresh_wf : (fresh dflt).WF := ⟨fun _ => rfl, fun _ => ⟨rfl, rfl⟩⟩

theorem execBatch_undone (sts : List Stmt)
    (h : s.tx = .aborted → s.localPath = none ∧ s.path = s.saved) :
    (execBatch dflt s sts as).1.tx = .aborted →
      (execBatch dflt s sts as).1.localPath = none ∧
        (execBatch dflt s sts as).1.path = (execBatch dflt s sts as).1.saved := by
  induction sts generalizing s as with
  | nil => exact h
  | cons st sts ih =>
    rw [execBatch]
    dsimp only
    split_ifs with hr hf
    · exact h
    · unfold execFailed
      split_ifs
      · exact fun _ => ⟨rfl, rfl⟩
      · exact fun _ => ⟨rfl, rfl⟩
    · apply ih
      by_cases hb : st = .begin
      · subst hb
        exact fun ha => absurd ha (by simp [exec])
      cases he : st.endsTx with
      | false =>
        rw [exec_set he hb]
        intro ha
        rw [set_tx] at ha
        exact absurd (by simp [refuses, he, ha]) hr
      | true =>
        cases st with
        | commit =>
          unfold exec
          split_ifs
          · exact fun ha => absurd ha (by simp [rolledBack])
          · exact fun ha => absurd ha (by simp [committed])
        | rollback | abort => exact fun ha => absurd ha (by simp [exec, rolledBack])
        | _ => cases he

theorem endBatch_wf (h : s.tx = .aborted → s.localPath = none ∧ s.path = s.saved) :
    s.endBatch.WF := by
  unfold endBatch
  split_ifs with hi
  · exact ⟨fun _ => rfl, fun _ => ⟨rfl, rfl⟩⟩
  · exact ⟨fun h' => absurd h' hi, h⟩

theorem WF.roundTrip (h : s.WF) (sts : List Stmt) : (s.roundTrip dflt sts as).1.WF := by
  apply endBatch_wf
  apply execBatch_undone
  intro ha
  have hb : s.beginBatch = s := by
    rw [beginBatch_tx] at ha
    simp [beginBatch, ha]
  rw [hb] at ha ⊢
  exact h.aborted ha

theorem WF.searchPath_of_idle (h : s.WF) (hi : s.tx = .idle) : s.searchPath = s.path := by
  simp [searchPath, h.idle hi]

/-- A batch of one statement that fails outside a transaction changes nothing. -/
theorem WF.roundTrip_failed_idle (h : s.WF) (hi : s.tx = .idle)
    (ha : s.accepts st as = false) :
    (s.roundTrip dflt [st] as).1.path = s.searchPath ∧
      (s.roundTrip dflt [st] as).1.searchPath = s.searchPath := by
  have hr : s.refuses st = false := by simp [refuses, hi]
  have hf : (Answer.toStmt st as).set.isFailed = true := by simpa [accepts, hr] using ha
  rw [roundTrip_failed hr hf, h.searchPath_of_idle hi]
  unfold execFailed
  split_ifs
  · simp [rolledBack, endBatch, committed, beginBatch, hi, searchPath]
  · simp [failed, rolledBack, endBatch, committed, beginBatch, hi, searchPath]

/-- The setting in force is the one the session would keep. -/
def Settled (s : Session) (p : Path) : Prop := s.path = p ∧ s.searchPath = p

/-- Nothing moves the path `p` away: what is set is `p`, and a transaction that is taken
back began on it. A setting for the transaction counts in an open one only. -/
def Keeps (dflt : Path) (s : Session) (p : Path) (st : Stmt) (a : Answer) : Prop :=
  (∀ q, st.setting dflt a = some (.session q) → q = p) ∧
    (s.tx = .inTransaction →
      (∀ q, st.setting dflt a = some (.transaction q) → q = p) ∧
        (st.isRollback = true → s.saved = p))

theorem Settled.endBatch {p : Path} (h : s.path = p) (hl : s.tx ≠ .idle → s.searchPath = p) :
    s.endBatch.Settled p := by
  unfold Session.endBatch
  split_ifs with hi
  · exact ⟨h, h⟩
  · exact ⟨h, hl hi⟩

/-- An accepted statement that keeps a settled path leaves it settled. -/
theorem WF.roundTrip_keeps {p : Path} (h : s.WF) (hs : s.Settled p)
    (hk : s.Keeps dflt p st (Answer.toStmt st as)) (ha : s.accepts st as = true) :
    (s.roundTrip dflt [st] as).1.Settled p := by
  obtain ⟨hp, hsp⟩ := hs
  have hr : s.refuses st = false := by
    simp only [accepts, Bool.and_eq_true, Bool.not_eq_true'] at ha
    exact ha.1
  rw [roundTrip_accepted ha]
  by_cases hb : st = .begin
  · subst hb
    exact Settled.endBatch (by simpa [exec] using hp) fun _ => by simpa [exec, searchPath] using hsp
  cases he : st.endsTx with
  | false =>
    rw [exec_set he hb]
    have htx : s.tx ≠ .aborted := fun hab => by simp [refuses, he, hab] at hr
    cases hx : st.setting dflt (Answer.toStmt st as) with
    | none =>
      refine Settled.endBatch (by simpa [set] using hp) fun _ => ?_
      simpa [set, searchPath] using hsp
    | some x =>
      cases x with
      | session q =>
        have hq := hk.1 q hx
        exact Settled.endBatch hq fun _ => hq
      | transaction q =>
        refine Settled.endBatch (by simpa [set] using hp) fun hi => ?_
        have hin : s.tx = .inTransaction := by
          cases ht : s.tx with
          | idle => exact absurd ht (by simpa [set] using hi)
          | inTransaction => rfl
          | aborted => exact absurd ht htx
        exact (hk.2 hin).1 q hx
  | true =>
    have hback : s.tx = .inTransaction → st.isRollback = true → s.saved = p := fun hin => (hk.2 hin).2
    have hundone : (st.isRollback = true ∨ s.tx = .aborted) → s.beginBatch.saved = p := by
      intro hor
      cases ht : s.tx with
      | idle => simpa [beginBatch, ht] using hp
      | inTransaction =>
        simpa [beginBatch, ht] using hback ht (hor.resolve_right (by simp [ht]))
      | aborted => simpa [beginBatch, ht] using (h.aborted ht).2.symm.trans hp
    cases st with
    | commit =>
      unfold exec
      split_ifs with hab
      · have hsv := hundone (.inr (by simpa using hab))
        exact Settled.endBatch hsv fun hi => absurd rfl hi
      · exact Settled.endBatch (by simpa [committed] using hp) fun hi => absurd rfl hi
    | rollback | abort =>
      exact Settled.endBatch (hundone (.inl rfl)) fun hi => absurd rfl hi
    | _ => cases he

theorem roundTrip_moves {p : Path} (he : st.endsTx = false) (hb : st ≠ .begin)
    (hst : ∀ a, st.setting dflt a = some (.session p)) (ha : s.accepts st as = true) :
    (s.roundTrip dflt [st] as).1.Settled p ∧
      (s.roundTrip dflt [st] as).1.tx = s.tx ∧
      (s.tx ≠ .idle → (s.roundTrip dflt [st] as).1.saved = s.saved) := by
  rw [roundTrip_accepted ha, exec_set he hb, hst]
  refine ⟨Settled.endBatch rfl fun _ => rfl, ?_⟩
  by_cases hi : s.tx = .idle
  · simp [endBatch, beginBatch, hi, committed, set]
  · simp [endBatch, beginBatch, hi, set]

theorem roundTrip_failed_inTransaction (ht : s.tx = .inTransaction) (he : st.endsTx = false)
    (ha : s.accepts st as = false) :
    (s.roundTrip dflt [st] as).1.path = s.saved ∧
      (s.roundTrip dflt [st] as).1.searchPath = s.saved := by
  have hr : s.refuses st = false := by simp [refuses, ht]
  have hf : (Answer.toStmt st as).set.isFailed = true := by simpa [accepts, hr] using ha
  rw [roundTrip_failed hr hf]
  simp [execFailed, he, failed, rolledBack, endBatch, beginBatch, ht, searchPath]

end Session

def handlePath (srv : Server) (schema : Text) : Path := if schema = [] then srv.dflt else [schema]

/-- `searchPath_` beside the setting it copies. -/
def shadow (srv : Server) (db : PostgresDatabase) : Shadow Path where
  cached := if db.searchPath = UNKNOWN then none else some (handlePath srv db.searchPath)
  actual := (db.session srv).searchPath

/-- The invariant: the copy is right, and no `SET LOCAL` of another path hides behind it. -/
structure Agrees (srv : Server) (db : PostgresDatabase) : Prop where
  sound : (shadow srv db).Sound
  wf : (db.session srv).WF
  settled : db.searchPath ≠ UNKNOWN → (db.session srv).path = (db.session srv).searchPath

section Agreement
variable {srv : Server} {db : PostgresDatabase} {c : Call}

theorem Agrees.searchPath (h : Agrees srv db) (hk : db.searchPath ≠ UNKNOWN) :
    (db.session srv).searchPath = handlePath srv db.searchPath :=
  h.sound _ (if_neg hk)

theorem agrees_of_unknown (hw : (db.session srv).WF) (hk : db.searchPath = UNKNOWN) :
    Agrees srv db where
  sound := by
    intro p hp
    simp [shadow, hk] at hp
  wf := hw
  settled h := absurd hk h

theorem agrees_of_known (hw : (db.session srv).WF)
    (hp : (db.session srv).Settled (handlePath srv db.searchPath)) : Agrees srv db where
  sound := by
    intro p h
    by_cases hk : db.searchPath = UNKNOWN
    · simp [shadow, hk] at h
    · simp only [shadow, if_neg hk, Option.some.injEq] at h
      exact hp.2.trans h
  wf := hw
  settled _ := hp.1.trans hp.2.symm

theorem Agrees.isSettled (h : Agrees srv db) (hk : db.searchPath ≠ UNKNOWN) :
    (db.session srv).Settled (handlePath srv db.searchPath) :=
  ⟨(h.settled hk).trans (h.searchPath hk), h.searchPath hk⟩

theorem agrees_init : Agrees srv {} :=
  agrees_of_known Session.fresh_wf ⟨rfl, rfl⟩

theorem Agrees.connected (h : Agrees srv db) : Agrees srv (db.connected srv) := by
  by_cases hc : db.conn = none
  · have hs : db.session srv = .fresh srv.dflt := by simp [PostgresDatabase.session, hc]
    have hp : (db.connected srv).searchPath = [] := by simp [PostgresDatabase.connected, hc]
    apply agrees_of_known
    · exact h.wf
    · rw [hp, session_connected, hs]
      exact ⟨rfl, rfl⟩
  · have hd : db.connected srv = db := by
      obtain ⟨s, hs⟩ := Option.ne_none_iff_exists'.mp hc
      obtain ⟨conn, p⟩ := db
      simp only at hs
      subst hs
      rfl
    rwa [hd]

/-- The command ahead of a text sets the path of the handle. -/
theorem read_pathCommand_sets (srv : Server) {schema : Text} (hn : schema = [] ∨ ValidName schema) :
    ∃ st, srv.read (pathCommand schema) = [st] ∧ st.endsTx = false ∧ st ≠ .begin ∧
      ∀ a, st.setting srv.dflt a = some (.session (handlePath srv schema)) := by
  rcases hn with rfl | hn
  · exact ⟨.reset, srv.read_reset, rfl, by simp, fun _ => rfl⟩
  · exact ⟨_, srv.read_set _ hn, rfl, by simp, fun _ => by simp [Stmt.setting, handlePath, hn.1]⟩

theorem setRun_moves (h : Agrees srv db) (hn : c.schema = [] ∨ ValidName c.schema)
    (hs : (setRun srv db c).result.success = true) :
    Agrees srv { (setRun srv db c).db with searchPath := c.schema } ∧
      ((setRun srv db c).db.session srv).tx = (db.session srv).tx ∧
      ((db.session srv).tx ≠ .idle →
        ((setRun srv db c).db.session srv).saved = (db.session srv).saved) := by
  obtain ⟨st, hst, he, hb, hset⟩ := read_pathCommand_sets srv hn
  rcases run_cases srv db (pathCommand c.schema) 0 c.setWire with ⟨_, _, hrun⟩ | ⟨_, _, hf, _⟩
  · obtain ⟨hacc, hdb⟩ := setRun_sent hst hrun
    rw [hs] at hacc
    obtain ⟨hp, htx, hsv⟩ := Session.roundTrip_moves he hb hset hacc.symm
    rw [hdb]
    exact ⟨agrees_of_known (h.wf.roundTrip [st]) hp, htx, hsv⟩
  · rw [setRun, hf] at hs
    exact absurd hs Bool.false_ne_true

theorem setRun_keeps (h : Agrees srv db) (hs : (setRun srv db c).result.success = false)
    (hq : (db.session srv).tx = .inTransaction → c.setWire.sendError = none →
      c.setAccepted srv = false →
      db.searchPath = UNKNOWN ∨ (db.session srv).saved = (db.session srv).searchPath) :
    Agrees srv (setRun srv db c).db := by
  rcases run_cases srv db (pathCommand c.schema) 0 c.setWire with ⟨_, hw, hrun⟩ | ⟨_, _, _, hd⟩
  · obtain ⟨st, hst, he⟩ := srv.read_pathCommand c.schema
    obtain ⟨hacc, hdb⟩ := setRun_sent hst hrun
    rw [hs] at hacc
    have hwf := @Session.WF.roundTrip srv.dflt _ c.setWire.answers h.wf [st]
    rw [hdb]
    by_cases hk : (db.connected srv).searchPath = UNKNOWN
    · exact agrees_of_unknown hwf hk
    have hp := h.connected.searchPath hk
    cases htx : (db.session srv).tx with
    | idle =>
      obtain ⟨h1, h2⟩ := @Session.WF.roundTrip_failed_idle srv.dflt _ st _ h.wf htx hacc.symm
      exact agrees_of_known hwf ⟨h1.trans hp, h2.trans hp⟩
    | aborted =>
      have hr : (db.session srv).refuses st = true := by simp [Session.refuses, htx, he]
      have hsame : ((db.session srv).roundTrip srv.dflt [st] c.setWire.answers).1 =
          db.session srv := by rw [Session.roundTrip_refused hr]
      rw [hsame]
      exact h.connected
    | inTransaction =>
      obtain ⟨h1, h2⟩ :=
        @Session.roundTrip_failed_inTransaction srv.dflt _ st c.setWire.answers htx he hacc.symm
      have hna : c.setAccepted srv = false := by
        simpa [Call.setAccepted, hst, Session.accepts, Session.refuses, htx] using hacc.symm
      have hsv : (db.session srv).saved = (db.session srv).searchPath := by
        refine (hq htx hw hna).resolve_left fun hu => hk ?_
        have hc : db.conn ≠ none := by
          intro hc
          simp [PostgresDatabase.session, hc, Session.fresh] at htx
        simpa [PostgresDatabase.connected, hc] using hu
      have hback := hsv.trans hp
      exact agrees_of_known hwf ⟨h1.trans hback, h2.trans hback⟩
  · rcases hd with hd | hd
    · rw [setRun, hd]
      exact h
    · rw [setRun, hd]
      exact h.connected

theorem runOn_keeps (h : Agrees srv db) (hk : db.searchPath ≠ UNKNOWN) {st : Stmt}
    (hst : srv.read c.sql = [st])
    (hq : mayMovePath c.sql = false → (db.conn = none → c.wire.connectError = none) →
      c.wire.sendError = none → (db.session srv).accepts st c.wire.answers = true →
      (db.session srv).Keeps srv.dflt (handlePath srv db.searchPath) st
        (Answer.toStmt st c.wire.answers)) :
    Agrees srv (runOn srv db c).db := by
  have hmark : ∀ r : Ran, (r.db.session srv).WF →
      Agrees srv { r.db with searchPath := UNKNOWN } :=
    fun r hw => agrees_of_unknown hw rfl
  rcases run_cases srv db c.sql c.rowLimit c.wire with ⟨hcn, hw, hrun⟩ | ⟨_, _, hf, hd⟩
  · have hdb : (run srv db c.sql c.rowLimit c.wire).db = { db.connected srv with
        conn := some ((db.session srv).roundTrip srv.dflt [st] c.wire.answers).1 } := by
      rw [hrun, sentRun, hst]
    have hwf := @Session.WF.roundTrip srv.dflt _ c.wire.answers h.wf [st]
    unfold runOn
    dsimp only
    split_ifs with hm
    · exact hmark _ (by rw [hdb]; exact hwf)
    · simp only [Bool.or_eq_true, Bool.not_eq_true', not_or, Bool.not_eq_false,
        Bool.not_eq_true] at hm
      have hp := h.searchPath hk
      have hstay : ((db.session srv).roundTrip srv.dflt [st] c.wire.answers).1.Settled
          (handlePath srv db.searchPath) := by
        cases ha : (db.session srv).accepts st c.wire.answers with
        | false =>
          have hcan : (sentRun srv db c.sql c.rowLimit c.wire).cancelled = true := by
            by_contra hne
            rw [Bool.not_eq_true] at hne
            have := sentRun_success hst hne
            rw [← hrun, hm.1, ha] at this
            exact Bool.false_ne_true this.symm
          obtain ⟨h1, h2⟩ := @Session.WF.roundTrip_failed_idle srv.dflt _ st _ h.wf
            (idle_of_cancelled hcan).1 ha
          exact ⟨h1.trans hp, h2.trans hp⟩
        | true => exact h.wf.roundTrip_keeps (h.isSettled hk) (hq hm.2 hcn hw ha) ha
      rw [hdb]
      by_cases hc : db.conn = none
      · have hs : db.session srv = .fresh srv.dflt := by simp [PostgresDatabase.session, hc]
        refine agrees_of_known hwf ?_
        have hd : handlePath srv db.searchPath = srv.dflt := by
          rw [← hp, hs]
          rfl
        rw [hd] at hstay
        simpa [PostgresDatabase.connected, hc, handlePath] using hstay
      · refine agrees_of_known hwf ?_
        simpa [PostgresDatabase.connected, hc] using hstay
  · unfold runOn
    simp only [hf, Bool.not_false, Bool.true_or, if_true]
    apply hmark
    rcases hd with hd | hd
    · rw [hd]
      exact h.wf
    · rw [hd]
      exact h.wf

end Agreement

/-- A call whose text is one statement, through the database handle or a schema's. -/
structure StatementCall (srv : Server) extends Call where
  named : schema = [] ∨ ValidName schema
  single : ∃ st, srv.read sql = [st]

/-- The call's text gets to the server, as far as network and server decide it. -/
def Call.Reaches (srv : Server) (db : PostgresDatabase) (c : Call) : Prop :=
  (db.conn = none →
    (if c.schema = db.searchPath then c.wire else c.setWire).connectError = none) ∧
    c.wire.sendError = none ∧
    (c.schema = db.searchPath ∨ c.setWire.sendError = none ∧
      (db.session srv).tx ≠ .aborted ∧ c.setAccepted srv = true)

/-- Nothing moves the path behind the client's back: no preliminary command takes an open
transaction back, and a text that gives nothing away keeps the path of its handle, whatever
it sets it with and whatever it takes back. -/
structure Undisturbed (srv : Server) (db : PostgresDatabase) (c : Call) : Prop where
  set : c.schema ≠ db.searchPath → (db.session srv).tx = .inTransaction →
    c.setWire.sendError = none → c.setAccepted srv = false →
    db.searchPath = UNKNOWN ∨ (db.session srv).saved = (db.session srv).searchPath
  text (st : Stmt) : srv.read c.sql = [st] → mayMovePath c.sql = false → c.Reaches srv db →
    (db.session srv).accepts st c.wire.answers = true →
    (db.session srv).Keeps srv.dflt (handlePath srv c.schema) st (Answer.toStmt st c.wire.answers)

/-- If the call's text reaches the server, it meets its handle's path there. -/
def SentOnOwnPath (srv : Server) (db : PostgresDatabase) (c : Call) : Prop :=
  ∀ s, (executeIn srv db c).sent = some s → s.searchPath = handlePath srv c.schema

section Calls
variable {srv : Server} {db : PostgresDatabase}

theorem StatementCall.schema_ne_unknown (c : StatementCall srv) : c.schema ≠ UNKNOWN := by
  intro hu
  rcases c.named with h | h
  · rw [hu] at h
    exact absurd h (by decide)
  · rw [hu] at h
    exact h.2.1 (by decide)

theorem sent_eq (s : Session) (sql : Text) (rowLimit : ℤ) (w : Wire)
    (h : (run srv db sql rowLimit w).sent = some s) : s = db.session srv := by
  rcases run_cases srv db sql rowLimit w with ⟨_, _, hrun⟩ | ⟨hn, _⟩
  · rw [hrun] at h
    exact (Option.some.inj h).symm
  · rw [hn] at h
    exact absurd h (by simp)

/-- With the copy right, a call's text meets the handle's path. -/
theorem Agrees.sentOnOwnPath (h : Agrees srv db) (c : StatementCall srv) :
    SentOnOwnPath srv db c.toCall := by
  intro s hs
  unfold executeIn at hs
  dsimp only at hs
  split_ifs at hs with hp hf
  · rw [runOn_sent] at hs
    rw [sent_eq s _ _ _ hs, hp]
    exact h.searchPath (hp ▸ c.schema_ne_unknown)
  · rw [Bool.not_eq_true', Bool.not_eq_false] at hf
    rw [runOn_sent] at hs
    rw [sent_eq s _ _ _ hs]
    exact (setRun_moves h c.named hf).1.searchPath c.schema_ne_unknown

theorem Agrees.step (h : Agrees srv db) (c : StatementCall srv)
    (hu : Undisturbed srv db c.toCall) : Agrees srv (step srv db c.toCall) := by
  obtain ⟨st, hst⟩ := c.single
  unfold Pg.step executeIn
  dsimp only
  split_ifs with hp hf
  · refine runOn_keeps h (hp ▸ c.schema_ne_unknown) hst fun hm hcn hw ha => ?_
    rw [← hp]
    exact hu.text st hst hm ⟨by simpa [hp] using hcn, hw, Or.inl hp⟩ ha
  · rw [Bool.not_eq_true'] at hf
    exact setRun_keeps h hf (hu.set hp)
  · rw [Bool.not_eq_true', Bool.not_eq_false] at hf
    obtain ⟨h', htx, hsv⟩ := setRun_moves h c.named hf
    refine runOn_keeps h' c.schema_ne_unknown hst fun hm _ hw ha => ?_
    obtain ⟨hcn, hsend, htx', hacc⟩ := setRun_success_iff.mp hf
    have ha' : (db.session srv).accepts st c.wire.answers = true := by
      simpa only [Session.accepts, Session.refuses, htx, session_searchPath] using ha
    have hkeeps := hu.text st hst hm
      ⟨by simpa [hp] using hcn, hw, Or.inr ⟨hsend, htx', hacc⟩⟩ ha'
    refine ⟨hkeeps.1, fun hin => ?_⟩
    have hin' : (db.session srv).tx = .inTransaction := htx.symm.trans hin
    obtain ⟨h1, h2⟩ := hkeeps.2 hin'
    exact ⟨h1, fun hb => (hsv (by simp [hin'])).trans (h2 hb)⟩

def callStep (srv : Server) (db : PostgresDatabase) (c : StatementCall srv) : PostgresDatabase :=
  step srv db c.toCall

/-- In a run of undisturbed calls every text that reaches the server meets the path of
its handle. -/
theorem undisturbed_calls_agree (srv : Server) (cs : List (StatementCall srv))
    (h : Along (callStep srv) (fun db c => Undisturbed srv db c.toCall) {} cs) :
    Along (callStep srv) (fun db c => SentOnOwnPath srv db c.toCall) {} cs :=
  h.of_invariant (fun _ c hi hc => hi.step c hc) (fun _ c hi _ => hi.sentOnOwnPath c) agrees_init

def quietCall (schema sql : Text) (h : schema = [] ∨ ValidName schema) :
    StatementCall (plainServer []) where
  schema := schema
  sql := sql
  named := h
  single := ⟨_, rfl⟩

theorem schema_then_default_agree :
    Along (callStep (plainServer [])) (fun db c => SentOnOwnPath (plainServer []) db c.toCall) {}
      [quietCall "sales".toList "SELECT 1".toList (by decide),
        quietCall [] "SELECT 1".toList (by decide)] := by
  have hread : readPlainly "SELECT 1".toList = .other := by decide
  apply undisturbed_calls_agree
  refine ⟨⟨fun _ h => absurd h (by decide), ?_⟩,
    ⟨fun _ h => absurd h (by decide), ?_⟩, trivial⟩
  all_goals
    intro st hst _ _ _
    obtain rfl : Stmt.other = st := hread.symm.trans (List.singleton_inj.mp hst)
    refine ⟨fun q hq => ?_, fun _ => ⟨fun q hq => ?_, fun hb => absurd hb (by decide)⟩⟩
    · cases hq
    · cases hq

/-- `SET SCHEMA 'x'` moves the path and names none of the four words: the next call of
the same handle runs on `x`. -/
theorem set_schema_unnoticed :
    ¬ Along (callStep (plainServer [])) (fun db c => SentOnOwnPath (plainServer []) db c.toCall) {}
      [quietCall "sales".toList "SET SCHEMA 'x'".toList (by decide),
        quietCall "sales".toList "SELECT 1".toList (by decide)] := by
  rintro ⟨_, h, _⟩
  have hx := h { path := ["x".toList], saved := ["x".toList] } (by decide)
  exact absurd hx (by decide)

end Calls
end DearSql.Pg
