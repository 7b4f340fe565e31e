import DearSql.RedisSelection

/-! A command line written from arguments and read back. Every argument stands between quotes, but
an argument is only kept where some byte of it is read. -/
namespace DearSql.Redis
open Effects

section Words

/-- An argument and a quote character that it does not contain. -/
structure QuotedArg where
  arg : Text
  quote : Char
  isQuote : quote = '"' ∨ quote = '\''
  notMem : quote ∉ arg

def QuotedArg.text (a : QuotedArg) : Text := a.quote :: a.arg ++ [a.quote]

def commandText (args : List QuotedArg) : Text := [' '].intercalate (args.map QuotedArg.text)

variable {current rest : Text} {q : Char}

theorem parseWords_inside {arg : Text} (h : q ∉ arg) :
    parseWords (some q) current (arg ++ q :: rest) = parseWords none (current ++ arg) rest := by
  induction arg generalizing current with
  | nil => simp [parseWords]
  | cons c arg ih =>
    have hc : c ≠ q := fun hc => h (by simp [hc])
    rw [List.cons_append, parseWords, if_neg hc, ih fun hq => h (by simp [hq])]
    simp

theorem parseWords_quoted (a : QuotedArg) :
    parseWords none current (a.text ++ rest) = parseWords none (current ++ a.arg) rest := by
  have htext : a.text ++ rest = a.quote :: (a.arg ++ a.quote :: rest) := by
    simp [QuotedArg.text]
  rw [htext, parseWords, if_pos a.isQuote, parseWords_inside a.notMem]

/-- What is read back are the arguments that are not empty. -/
theorem parseRedisCommand_commandText (args : List QuotedArg) :
    parseRedisCommand (commandText args) = (args.map QuotedArg.arg).filter (· ≠ []) := by
  rw [parseRedisCommand]
  induction args with
  | nil => rfl
  | cons a args ih =>
    cases args with
    | nil =>
      have hread := @parseWords_quoted [] [] a
      rw [List.append_nil, List.nil_append] at hread
      rw [commandText, List.map_singleton, List.intercalate_singleton, hread, parseWords]
      by_cases ha : a.arg = [] <;> simp [ha]
    | cons b args =>
      have hcons : commandText (a :: b :: args) = a.text ++ ' ' :: commandText (b :: args) := by
        simp [commandText, List.intercalate_cons_cons]
      have hspace : isspace ' ' = true := rfl
      rw [hcons, parseWords_quoted, List.nil_append, parseWords, if_neg (by decide), if_pos hspace,
        ih]
      by_cases ha : a.arg = [] <;> simp [ha]

end Words

section Execution

/-- On a selected database the command line sends these arguments, as one command. -/
def Sends (cmd : Text) (argv : List Text) : Prop :=
  ∀ (srv : Server) (index : ℤ) (errstr : Text) (w : World),
    value (ensureSelectedLocked srv index) w = true →
      (after (execute srv index cmd errstr) w).trace =
        (after (ensureSelectedLocked srv index) w).trace ++
          [⟨(after (ensureSelectedLocked srv index) w).selected, argv, false⟩]

theorem sends_parsed {cmd : Text} (h : parseRedisCommand cmd ≠ []) :
    Sends cmd (parseRedisCommand cmd) := by
  intro srv index errstr w hok
  have hctx : w.conn.state.ctx = true := by
    by_contra hc
    rw [(ensure_closed (by simpa using hc)).1] at hok
    cases hok
  unfold execute
  dsimp only
  rw [if_neg h, after_getState, if_neg (by simp [hctx]), after_bind_of hok rfl]
  rfl

/-- The arguments are read back, and sent. -/
def RoundTrips (args : List QuotedArg) : Prop :=
  parseRedisCommand (commandText args) = args.map QuotedArg.arg ∧
    Sends (commandText args) (args.map QuotedArg.arg)

/-- A command line gives its arguments back exactly where none of them is empty. -/
theorem roundTrips_iff (a : QuotedArg) (args : List QuotedArg) :
    RoundTrips (a :: args) ↔ ∀ b ∈ a :: args, b.arg ≠ [] := by
  have hall : parseRedisCommand (commandText (a :: args)) = (a :: args).map QuotedArg.arg ↔
      ∀ b ∈ a :: args, b.arg ≠ [] := by
    rw [parseRedisCommand_commandText, List.filter_eq_self]
    simp
  rw [RoundTrips, hall]
  refine ⟨And.left, fun h => ⟨h, ?_⟩⟩
  have hparse := hall.mpr h
  have hsends := @sends_parsed (commandText (a :: args)) (by rw [hparse]; simp)
  rwa [hparse] at hsends

/-- `SET k` of an empty value. -/
def setEmpty : List QuotedArg :=
  [⟨"SET".toList, '"', .inl rfl, by decide⟩, ⟨"k".toList, '"', .inl rfl, by decide⟩,
    ⟨[], '"', .inl rfl, by decide⟩]

/-- The empty value is lost. -/
theorem set_loses_empty : parseRedisCommand (commandText setEmpty) = ["SET".toList, "k".toList] ∧
    ¬RoundTrips setEmpty := by
  refine ⟨by decide, fun h => ?_⟩
  have hparse := h.1
  revert hparse
  decide

end Execution
end DearSql.Redis
