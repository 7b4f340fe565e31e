import DearSql.RedisConnection

/-! Commands in flight on a connection. A command adds its reply at the back of what is to be read
and every reading takes one from the front, so the replies belong to the commands as long as there
are as many readings as commands. -/
namespace DearSql.Redis
open Effects

section Replies

/-- The reply to the command that is sent after `k` others. -/
def World.answer (w : World) (k : ℕ) : Option Reply := w.replies[k]?.join

/-- The replies to the next `n` commands. -/
def World.answers (w : World) (n : ℕ) : List (Option Reply) := (List.range n).map w.answer

/-- One reply has been read for each command sent. -/
def Paired (w w' : World) : Prop :=
  ∃ es, w'.trace = w.trace ++ es ∧ w'.replies = w.replies.drop es.length ∧
    w'.unread = (w.unread ++ w.answers es.length).drop es.length

variable {w w' : World} {n k : ℕ}

@[simp] theorem World.length_answers : (w.answers n).length = n := by
  simp [World.answers]

theorem World.getElem?_answers (h : k < n) : (w.answers n)[k]? = some (w.answer k) := by
  simp [World.answers, h]

theorem answer_of_drop (h : w'.replies = w.replies.drop n) : w'.answer k = w.answer (n + k) := by
  rw [World.answer, h, List.getElem?_drop, World.answer]

theorem answers_add (h : w'.replies = w.replies.drop n) :
    w.answers (n + k) = w.answers n ++ w'.answers k := by
  rw [World.answers, List.range_add, List.map_append, List.map_map]
  congr 1
  exact List.map_congr_left fun j _ => (answer_of_drop h).symm

theorem Paired.refl (w : World) : Paired w w := ⟨[], by simp, rfl, by simp [World.answers]⟩

theorem Paired.trans (a b c : World) (h : Paired a b) (h' : Paired b c) : Paired a c := by
  obtain ⟨es, htrace, hreplies, hunread⟩ := h
  obtain ⟨fs, htrace', hreplies', hunread'⟩ := h'
  refine ⟨es ++ fs, ?_, ?_, ?_⟩
  · rw [htrace', htrace, List.append_assoc]
  · rw [hreplies', hreplies, List.drop_drop, List.length_append]
  · have hle : es.length ≤ (a.unread ++ a.answers es.length).length := by simp
    rw [hunread', hunread, ← List.drop_append_of_le_length hle, List.drop_drop, List.append_assoc,
      List.length_append, answers_add hreplies]

/-- Where nothing was outstanding, nothing is. -/
theorem Paired.unread_nil (h : Paired w w') (hw : w.unread = []) : w'.unread = [] := by
  obtain ⟨es, -, -, hunread⟩ := h
  rw [hunread, hw, List.nil_append, List.drop_eq_nil_iff, World.length_answers]

variable {srv : Server} {α β : Type}

theorem paired_pure (a : α) : Leads Paired (pure a : M α) := leads_pure Paired.refl a

theorem paired_bind {t : M α} {f : α → M β} (ht : Leads Paired t)
    (hf : ∀ a, Leads Paired (f a)) : Leads Paired (t >>= f) := ht.bind Paired.trans hf

/-- A command is sent and its reply, or one that waits, is read. -/
theorem paired_command (argv : List Text) (check : Bool) :
    Leads Paired (command srv argv check) := fun w =>
  ⟨[⟨w.selected, argv, check⟩], rfl, by simp [command, append, getReply], by
    cases hr : w.replies <;> simp [command, append, getReply, World.answers, World.answer, hr]⟩

theorem paired_getState : Leads Paired getState := fun w => Paired.refl w

/-- The client's own state takes no part. -/
theorem paired_modifyState (f : RedisState → RedisState) : Leads Paired (modifyState f) := fun w =>
  ⟨[], by simp [modifyState], by simp [modifyState], by simp [modifyState, World.answers]⟩

theorem paired_ensureSelectedLocked (index : ℤ) : Leads Paired (ensureSelectedLocked srv index) := by
  refine paired_bind paired_getState fun st => ?_
  split_ifs
  · exact paired_pure _
  · exact paired_pure _
  · refine paired_bind (paired_command _ _) fun reply => ?_
    split_ifs
    · exact paired_pure _
    · exact paired_bind (paired_modifyState _) fun _ => paired_pure _

theorem paired_scanPages (pattern : Text) (limit : ℤ) (pages cursor : ℕ) (keys : List Text) :
    Leads Paired (scanPages srv pattern limit pages cursor keys) := by
  induction pages generalizing cursor keys with
  | zero => exact paired_bind (paired_command _ _) fun _ => paired_pure _
  | succ pages ih =>
    refine paired_bind (paired_command _ _) fun reply => ?_
    split
    · dsimp only
      split_ifs
      · exact paired_pure _
      · exact ih _ _
      · exact paired_pure _
      · exact ih _ _
    · exact paired_pure _

theorem paired_scanKeysLocked (pattern : Text) (limit : ℤ) :
    Leads Paired (scanKeysLocked srv pattern limit) := by
  refine paired_bind (fun w => Paired.refl w) fun w => ?_
  split_ifs
  · exact paired_pure _
  · exact paired_scanPages _ _ _ _ _

end Replies

section Pipelines

variable {srv : Server} {α β : Type} {w w' : World} {names : List Text}

/-- The state once a pipeline of commands is written. -/
def World.sentAll (srv : Server) (w : World) (argvs : List (List Text)) : World :=
  argvs.foldl (fun w argv => after (append srv argv false) w) w

theorem sentAll_spec (argvs : List (List Text)) :
    (w.sentAll srv argvs).replies = w.replies.drop argvs.length ∧
      (w.sentAll srv argvs).unread = w.unread ++ w.answers argvs.length ∧
      ∃ es, (w.sentAll srv argvs).trace = w.trace ++ es ∧ es.map Event.argv = argvs := by
  induction argvs generalizing w with
  | nil => exact ⟨rfl, by simp [World.sentAll, World.answers], [], by simp [World.sentAll], rfl⟩
  | cons argv argvs ih =>
    obtain ⟨hreplies, hunread, es, htrace, hes⟩ := @ih (after (append srv argv false) w)
    have hone : (after (append srv argv false) w).replies = w.replies.drop 1 := by
      simp [append]
    have hfirst : (after (append srv argv false) w).unread = w.unread ++ w.answers 1 := by
      cases hr : w.replies <;> simp [append, World.answers, World.answer, hr]
    refine ⟨?_, ?_, ⟨w.selected, argv, false⟩ :: es, ?_, by simp [hes]⟩
    · refine hreplies.trans ?_
      rw [hone, List.drop_drop, List.length_cons, Nat.add_comm]
    · refine hunread.trans ?_
      rw [hfirst, List.append_assoc, ← answers_add hone, List.length_cons, Nat.add_comm]
    · refine htrace.trans ?_
      rw [show (after (append srv argv false) w).trace = w.trace ++ [⟨w.selected, argv, false⟩]
        from rfl, List.append_assoc, List.singleton_append]

/-- A reader of `m` replies, over a list. -/
theorem mapM_reads {f : α → M β} {m : ℕ} {g : α → List (Option Reply) → β}
    (hafter : ∀ a w, after (f a) w = { w with unread := w.unread.drop m })
    (hvalue : ∀ a w, value (f a) w = g a w.unread) (l : List α) (w : World) :
    after (l.mapM f) w = { w with unread := w.unread.drop (m * l.length) } ∧
      (value (l.mapM f) w).length = l.length ∧
      ∀ i a, l[i]? = some a → (value (l.mapM f) w)[i]? = some (g a (w.unread.drop (m * i))) := by
  induction l generalizing w with
  | nil => exact ⟨by simp, rfl, by simp⟩
  | cons a l ih =>
    obtain ⟨hstate, hlen, hread⟩ := ih (after (f a) w)
    have hval : value ((a :: l).mapM f) w =
        value (f a) w :: value (l.mapM f) (after (f a) w) := by
      rw [List.mapM_cons]
      rfl
    have hstate' : after ((a :: l).mapM f) w = after (l.mapM f) (after (f a) w) := by
      rw [List.mapM_cons]
      rfl
    rw [hval, hstate']
    refine ⟨?_, by simp [hlen], fun i b hb => ?_⟩
    · rw [hstate, hafter, List.drop_drop, List.length_cons, Nat.mul_succ, Nat.add_comm]
    · cases i with
      | zero =>
        obtain rfl := Option.some_inj.mp hb
        rw [List.getElem?_cons_zero, hvalue, Nat.mul_zero, List.drop_zero]
      | succ i =>
        rw [List.getElem?_cons_succ, hread i b hb, hafter, List.drop_drop, Nat.mul_succ,
          Nat.add_comm]

/-- The first pipeline's commands about a key. -/
def detailArgvs (n : Text) : List (List Text) :=
  [["TYPE".toList, cstr n], ["TTL".toList, cstr n], ["MEMORY".toList, "USAGE".toList, cstr n]]

theorem getElem?_detailArgvs {i j : ℕ} {n : Text} (hj : j < 3) (h : names[i]? = some n) :
    (names.flatMap detailArgvs)[3 * i + j]? = (detailArgvs n)[j]? := by
  induction names generalizing i with
  | nil => simp at h
  | cons m names ih =>
    have hlen : (detailArgvs m).length = 3 := rfl
    rw [List.flatMap_cons]
    cases i with
    | zero =>
      obtain rfl := Option.some_inj.mp h
      rw [List.getElem?_append_left (by omega), Nat.mul_zero, Nat.zero_add]
    | succ i =>
      rw [List.getElem?_append_right (by omega), hlen, ← ih h]
      congr 1
      omega

theorem length_detailArgvs (names : List Text) :
    (names.flatMap detailArgvs).length = 3 * names.length := by
  induction names with
  | nil => rfl
  | cons m names ih =>
    rw [List.flatMap_cons, List.length_append, ih, List.length_cons]
    simp only [detailArgvs, List.length_cons, List.length_nil]
    omega

theorem after_details (names : List Text) (w : World) :
    after (names.forM (detailCommands srv)) w = w.sentAll srv (names.flatMap detailArgvs) := by
  induction names generalizing w with
  | nil => rfl
  | cons n names ih =>
    rw [World.sentAll, List.flatMap_cons, List.foldl_append]
    exact ih _

theorem after_previews (keys : List RedisKey) (w : World) :
    after (keys.forM fun key => append srv (previewCommand key) false) w =
      w.sentAll srv (keys.map previewCommand) := by
  induction keys generalizing w with
  | nil => rfl
  | cons key keys ih => exact ih _

/-- An entry made of the replies to its three commands. -/
def detailsOf (n : Text) (type ttl size : Option Reply) : RedisKey where
  name := n
  type := match type with
    | some (.status s) => cstr s
    | _ => "unknown".toList
  ttl := match ttl with
    | some (.integer i) => i
    | _ => -1
  size := match size with
    | some (.integer i) => i
    | _ => -1

theorem readDetails_spec (names : List Text) (w : World) :
    after (names.mapM readDetails) w = { w with unread := w.unread.drop (3 * names.length) } ∧
      (value (names.mapM readDetails) w).length = names.length ∧
      ∀ i n, names[i]? = some n → (value (names.mapM readDetails) w)[i]? =
        some (detailsOf n w.unread[3 * i]?.join w.unread[3 * i + 1]?.join
          w.unread[3 * i + 2]?.join) := by
  have hafter : ∀ (n : Text) (w : World),
      after (readDetails n) w = { w with unread := w.unread.drop 3 } := fun n w => by
    rw [← List.drop_drop (i := 1) (j := 2), ← List.drop_drop (i := 1) (j := 1), List.drop_one,
      List.drop_one, List.drop_one]
    rfl
  have hvalue : ∀ (n : Text) (w : World), value (readDetails n) w =
      detailsOf n w.unread[0]?.join w.unread[1]?.join w.unread[2]?.join := fun n w => by
    rw [← List.head?_eq_getElem?, ← List.getElem?_tail, ← List.getElem?_tail (i := 1),
      ← List.getElem?_tail, ← List.head?_eq_getElem?, ← List.head?_eq_getElem?]
    rfl
  have h := mapM_reads (g := fun n rs => detailsOf n rs[0]?.join rs[1]?.join rs[2]?.join)
    hafter hvalue names w
  simpa only [List.getElem?_drop, Nat.add_zero] using h

theorem readPreview_spec (keys : List RedisKey) (w : World) :
    after (keys.mapM readPreview) w = { w with unread := w.unread.drop keys.length } ∧
      (value (keys.mapM readPreview) w).length = keys.length ∧
      ∀ (i : ℕ) (key : RedisKey), keys[i]? = some key → (value (keys.mapM readPreview) w)[i]? =
        some { key with value := formatRedisPreview w.unread[i]?.join key.type } := by
  have hafter : ∀ (key : RedisKey) (w : World),
      after (readPreview key) w = { w with unread := w.unread.drop 1 } := fun key w => by
    rw [List.drop_one]
    rfl
  have hvalue : ∀ (key : RedisKey) (w : World), value (readPreview key) w =
      { key with value := formatRedisPreview w.unread[0]?.join key.type } := fun key w => by
    rw [← List.head?_eq_getElem?]
    rfl
  have h := mapM_reads (g := fun (key : RedisKey) rs =>
    { key with value := formatRedisPreview rs[0]?.join key.type }) hafter hvalue keys w
  simpa only [List.getElem?_drop, Nat.add_zero, Nat.one_mul] using h

/-- Since `w` the command has been sent after `k` others. -/
def Sent (w w' : World) (k : ℕ) (argv : List Text) : Prop :=
  (w'.trace[w.trace.length + k]?).map Event.argv = some argv

/-- The entry of the `i`-th of `count` keys is made of the replies to the commands about it. -/
structure EntryOf (w w' : World) (count i : ℕ) (n : Text) (key : RedisKey) : Prop where
  type : Sent w w' (3 * i) ["TYPE".toList, n]
  ttl : Sent w w' (3 * i + 1) ["TTL".toList, n]
  size : Sent w w' (3 * i + 2) ["MEMORY".toList, "USAGE".toList, n]
  preview : Sent w w' (3 * count + i) (previewCommand key)
  about : (previewCommand key)[1]? = some n
  replies : key = { detailsOf n (w.answer (3 * i)) (w.answer (3 * i + 1)) (w.answer (3 * i + 2)) with
    value := formatRedisPreview (w.answer (3 * count + i)) key.type }

/-- What a run of the two pipelines from `w` to `w'` returns. -/
structure Aligned (w w' : World) (names : List Text) (keys : List RedisKey) : Prop where
  length : keys.length = names.length
  entry : ∀ (i : ℕ) (n : Text) (key : RedisKey), names[i]? = some n → keys[i]? = some key →
    '\x00' ∉ n → EntryOf w w' names.length i n key

theorem cstr_of_notMem {n : Text} (h : '\x00' ∉ n) : cstr n = n := by
  rw [cstr, List.takeWhile_eq_self_iff]
  intro c hc
  have hne : c ≠ '\x00' := fun he => h (he ▸ hc)
  simpa using hne

theorem previewCommand_about (key : RedisKey) : (previewCommand key)[1]? = some (cstr key.name) := by
  unfold previewCommand
  split_ifs <;> rfl

/-- What the two pipelines do to the connection and what they return. -/
theorem keyDetails_spec (names : List Text) (w : World) :
    Paired w (after (keyDetails srv names) w) ∧
      (w.unread = [] →
        Aligned w (after (keyDetails srv names) w) names (value (keyDetails srv names) w)) := by
  obtain ⟨hreplies1, hunread1, es, htrace1, hes⟩ :=
    @sentAll_spec srv w (names.flatMap detailArgvs)
  rw [length_detailArgvs] at hreplies1 hunread1
  rw [← after_details] at hreplies1 hunread1 htrace1
  generalize hw1 : after (names.forM (detailCommands srv)) w = w1 at hreplies1 hunread1 htrace1
  obtain ⟨hstate2, hlen2, hentry2⟩ := readDetails_spec names w1
  generalize hk2 : value (names.mapM readDetails) w1 = keys at hlen2 hentry2
  generalize hw2 : after (names.mapM readDetails) w1 = w2 at hstate2
  obtain ⟨hreplies3, hunread3, fs, htrace3, hfs⟩ := @sentAll_spec srv w2 (keys.map previewCommand)
  rw [List.length_map, hlen2] at hreplies3 hunread3
  rw [← after_previews] at hreplies3 hunread3 htrace3
  generalize hw3 : after (keys.forM fun key => append srv (previewCommand key) false) w2 = w3
    at hreplies3 hunread3 htrace3
  obtain ⟨hstate4, hlen4, hentry4⟩ := readPreview_spec keys w3
  have hstate : after (keyDetails srv names) w = after (keys.mapM readPreview) w3 := by
    rw [keyDetails, after_bind, hw1, after_bind, hk2, hw2, after_bind, hw3]
  have hvalue : value (keyDetails srv names) w = value (keys.mapM readPreview) w3 := by
    rw [keyDetails, value_bind, hw1, value_bind, hk2, hw2, value_bind, hw3]
  rw [hstate, hvalue, hstate4]
  have hes_len : es.length = 3 * names.length := by
    rw [← length_detailArgvs, ← hes, List.length_map]
  have hfs_len : fs.length = names.length := by
    rw [← hlen2, ← List.length_map (f := previewCommand), ← hfs, List.length_map]
  have htrace : w3.trace = w.trace ++ (es ++ fs) := by
    rw [htrace3, hstate2, htrace1, List.append_assoc]
  have hreplies2 : w2.replies = w.replies.drop (3 * names.length) := by
    rw [hstate2, hreplies1]
  constructor
  · refine ⟨es ++ fs, htrace, ?_, ?_⟩
    · rw [List.length_append, hes_len, hfs_len, ← List.drop_drop, ← hreplies2]
      exact hreplies3
    · have hle : 3 * names.length ≤ (w.unread ++ w.answers (3 * names.length)).length := by simp
      rw [List.length_append, hes_len, hfs_len, answers_add hreplies2, ← List.drop_drop,
        ← List.append_assoc, List.drop_append_of_le_length hle, ← hunread1, hlen2, hunread3, hstate2]
  · intro hidle
    rw [hidle, List.nil_append] at hunread1
    have hunread2 : w2.unread = [] := by
      rw [hstate2, hunread1, List.drop_eq_nil_iff, World.length_answers]
    rw [hunread2, List.nil_append] at hunread3
    refine ⟨hlen4.trans hlen2, fun i n key hn hkey hnul => ?_⟩
    have hi : i < names.length := (List.getElem?_eq_some_iff.mp hn).1
    have hread : ∀ j < 3, w1.unread[3 * i + j]?.join = w.answer (3 * i + j) := fun j hj => by
      rw [hunread1, World.getElem?_answers (by omega)]
      rfl
    have hdetails := hentry2 i n hn
    have h0 := hread 0 (by omega)
    rw [Nat.add_zero] at h0
    rw [h0, hread 1 (by omega), hread 2 (by omega)] at hdetails
    have hvalue4 := hentry4 i _ hdetails
    rw [hkey, hunread3, World.getElem?_answers hi, Option.join_some, answer_of_drop hreplies2]
      at hvalue4
    have heq := Option.some_inj.mp hvalue4
    have hsent : ∀ (k : ℕ) (argv : List Text), ((es ++ fs)[k]?).map Event.argv = some argv →
        Sent w { w3 with unread := w3.unread.drop keys.length } k argv := fun k argv hk => by
      rw [Sent, htrace, List.getElem?_append_right (by omega), Nat.add_sub_cancel_left]
      exact hk
    have hdetail : ∀ (j : ℕ) (argv : List Text), j < 3 → (detailArgvs n)[j]? = some argv →
        Sent w { w3 with unread := w3.unread.drop keys.length } (3 * i + j) argv :=
      fun j argv hj hargv => hsent _ _ (by
        rw [List.getElem?_append_left (by omega), ← List.getElem?_map, hes,
          getElem?_detailArgvs hj hn, hargv])
    rw [detailArgvs, cstr_of_notMem hnul] at hdetail
    have hpreview : previewCommand key = previewCommand
        (detailsOf n (w.answer (3 * i)) (w.answer (3 * i + 1)) (w.answer (3 * i + 2))) := by
      rw [heq]
      rfl
    refine ⟨hdetail 0 _ (by omega) rfl, hdetail 1 _ (by omega) rfl, hdetail 2 _ (by omega) rfl,
      hsent _ _ ?_, ?_, ?_⟩
    · rw [List.getElem?_append_right (by omega), ← List.getElem?_map, hfs, hes_len,
        Nat.add_sub_cancel_left, List.getElem?_map, hdetails, hpreview]
      rfl
    · rw [previewCommand_about, heq]
      exact congrArg some (cstr_of_notMem hnul)
    · rw [heq]

end Pipelines

section Operations

variable {srv : Server} {w : World}

theorem paired_keyDetails (names : List Text) : Leads Paired (keyDetails srv names) := fun w =>
  (keyDetails_spec names w).1

theorem paired_fetchKeyDetails (index : ℤ) (names : List Text) :
    Leads Paired (fetchKeyDetails srv index names) := by
  refine paired_bind (paired_ensureSelectedLocked index) fun ok => ?_
  split_ifs
  · exact paired_pure _
  · exact paired_keyDetails names

theorem paired_getKeys (pattern : Text) (limit : ℤ) : Leads Paired (getKeys srv pattern limit) := by
  refine paired_bind paired_getState fun st => ?_
  split_ifs
  · exact paired_pure _
  · exact paired_bind (paired_scanKeysLocked _ _) fun _ => paired_keyDetails _

/-- A connection with nothing outstanding, and the replies its commands will get. -/
def World.idle (w : World) (replies : List (Option Reply)) : World :=
  { w with replies := replies, unread := [] }

/-- After the check a handle's pipelines run on its database; where the check fails no command
about a key is sent. -/
def FetchAligned (srv : Server) (index : ℤ) (names : List Text) (w : World) : Prop :=
  let w1 := after (ensureSelectedLocked srv index) w
  let w' := after (fetchKeyDetails srv index names) w
  let keys := value (fetchKeyDetails srv index names) w
  w'.unread = [] ∧
    if value (ensureSelectedLocked srv index) w then Aligned w1 w' names keys
    else w' = w1 ∧ keys = names.map fun _ => {}

/-- The pipelines of a connection run on the keys that its scan has found, in order. -/
def KeysAligned (srv : Server) (pattern : Text) (limit : ℤ) (w : World) : Prop :=
  let w1 := after (scanKeysLocked srv pattern limit) w
  let names := (value (scanKeysLocked srv pattern limit) w).mergeSort fun a b => decide (a ≤ b)
  let w' := after (getKeys srv pattern limit) w
  let keys := value (getKeys srv pattern limit) w
  w'.unread = [] ∧ if w.conn.state.ctx then Aligned w1 w' names keys else w' = w ∧ keys = []

theorem fetchAligned (index : ℤ) (names : List Text) (hw : w.unread = []) :
    FetchAligned srv index names w := by
  have h1 := (@paired_ensureSelectedLocked srv index w).unread_nil hw
  refine ⟨(paired_fetchKeyDetails index names w).unread_nil hw, ?_⟩
  cases hok : value (ensureSelectedLocked srv index) w with
  | false =>
    rw [if_neg (by simp), fetchKeyDetails, after_bind, value_bind, hok]
    exact ⟨rfl, rfl⟩
  | true =>
    rw [if_pos rfl, fetchKeyDetails, after_bind, value_bind, hok]
    exact (keyDetails_spec names _).2 h1

theorem keysAligned (pattern : Text) (limit : ℤ) (hw : w.unread = []) :
    KeysAligned srv pattern limit w := by
  have h1 := (@paired_scanKeysLocked srv pattern limit w).unread_nil hw
  refine ⟨(paired_getKeys pattern limit w).unread_nil hw, ?_⟩
  cases hctx : w.conn.state.ctx with
  | false =>
    rw [if_neg (by simp), getKeys, after_bind, value_bind]
    simp [getState, hctx]
  | true =>
    rw [if_pos rfl, getKeys, after_bind, value_bind]
    simp only [getState, value_bind, value_get, after_bind, after_get, value_pure, after_pure, hctx,
      Bool.not_true, Bool.false_eq_true, if_false]
    exact (keyDetails_spec _ _).2 h1

/-- The detail pipelines read one reply for each command, in whatever state they start, and from a
connection with nothing outstanding every entry is made of its own replies. -/
theorem pipelines_aligned (srv : Server) (index : ℤ) (names : List Text) (pattern : Text)
    (limit : ℤ) :
    Leads Paired (fetchKeyDetails srv index names) ∧ Leads Paired (getKeys srv pattern limit) ∧
      ∀ w replies, FetchAligned srv index names (World.idle w replies) ∧
        KeysAligned srv pattern limit (World.idle w replies) :=
  ⟨paired_fetchKeyDetails index names, paired_getKeys pattern limit, fun _ _ =>
    ⟨fetchAligned index names rfl, keysAligned pattern limit rfl⟩⟩

end Operations
end DearSql.Redis
