import DearSql.Scripts

/-! `byteOffset`: the position of a character in a UTF-8 text, in bytes. libpg_query, which counts
characters, is given. -/
namespace DearSql

section Source

/-- How far the loop of `byteOffset` goes on from the byte `c`. -/
def step (c : Char) : ℕ :=
  if c.toNat < 0x80 then 1 else if c.toNat < 0xE0 then 2 else if c.toNat < 0xF0 then 3 else 4

/-- The loop from the byte `i` on, with `chars` characters to go. -/
def byteOffsetFrom (s : Text) : ℕ → ℕ → ℕ
  | 0, i => i
  | chars + 1, i =>
    match s[i]? with
    | none => i
    | some c => byteOffsetFrom s chars (i + step c)

def byteOffset (s : Text) (chars : ℕ) : ℕ := min (byteOffsetFrom s chars 0) s.length

/-- An error of `pg_query_parse`; there is no position where `cursorpos` is 0. -/
structure PgQueryError where
  message : Option Text
  cursorpos : ℤ

def checkPostgres (pg_query_parse : Text → Option PgQueryError) (sql : Text) : Option SyntaxError :=
  match pg_query_parse (cstr sql) with
  | none => none
  | some error => some {
    message := error.message.getD "syntax error".toList
    offset := if error.cursorpos > 0 then byteOffset sql (error.cursorpos - 1).toNat else 0 }

end Source

section Encoding

def utf8Char (c : Char) : Text := (String.utf8EncodeChar c).map fun b => Char.ofNat b.toNat

def utf8 (points : List Char) : Text := points.flatMap utf8Char

theorem toNat_byte (b : UInt8) : (Char.ofNat b.toNat).toNat = b.toNat := by
  have hvalid : Nat.isValidChar b.toNat := .inl (by have := b.toNat_lt; omega)
  simp [Char.toNat_ofNat, hvalid]

/-- The first byte of a character tells its length. -/
theorem utf8Char_cons (c : Char) :
    ∃ b rest, utf8Char c = b :: rest ∧ step b = (utf8Char c).length := by
  have hstep : ∀ n < 256, step (Char.ofNat (UInt8.ofNat n).toNat) =
      if n < 0x80 then 1 else if n < 0xE0 then 2 else if n < 0xF0 then 3 else 4 := by
    intro n hn
    rw [step, toNat_byte, UInt8.toNat_ofNat_of_lt' hn]
  unfold utf8Char String.utf8EncodeChar
  dsimp only
  split_ifs
  · refine ⟨_, _, rfl, ?_⟩
    rw [hstep _ (by omega), if_pos (by omega)]
    rfl
  · refine ⟨_, _, rfl, ?_⟩
    rw [hstep _ (by omega), if_neg (by omega), if_pos (by omega)]
    rfl
  · refine ⟨_, _, rfl, ?_⟩
    rw [hstep _ (by omega), if_neg (by omega), if_neg (by omega), if_pos (by omega)]
    rfl
  · refine ⟨_, _, rfl, ?_⟩
    rw [hstep _ (by omega), if_neg (by omega), if_neg (by omega), if_neg (by omega)]
    rfl

theorem length_utf8Char_pos (c : Char) : 0 < (utf8Char c).length := by
  obtain ⟨b, rest, h, -⟩ := utf8Char_cons c
  rw [h]
  exact Nat.succ_pos _

theorem utf8_append (xs ys : List Char) : utf8 (xs ++ ys) = utf8 xs ++ utf8 ys :=
  List.flatMap_append

end Encoding

section Offsets

variable {points : List Char} {j k : ℕ}

/-- Between characters, the loop goes on by whole characters. -/
theorem byteOffsetFrom_utf8 (done points : List Char) (k : ℕ) :
    byteOffsetFrom (utf8 (done ++ points)) k (utf8 done).length =
      (utf8 (done ++ points.take k)).length := by
  induction k generalizing done points with
  | zero => rw [byteOffsetFrom, List.take_zero, List.append_nil]
  | succ k ih =>
    cases points with
    | nil =>
      have hend : (utf8 done)[(utf8 done).length]? = none := List.getElem?_eq_none le_rfl
      rw [List.take_nil, List.append_nil, byteOffsetFrom, hend]
    | cons c points =>
      obtain ⟨b, rest, hc, hstep⟩ := utf8Char_cons c
      have hnext : (utf8 (done ++ c :: points))[(utf8 done).length]? = some b := by
        rw [utf8_append, List.getElem?_append_right le_rfl, Nat.sub_self]
        change (utf8Char c ++ utf8 points)[0]? = some b
        rw [hc]
        rfl
      have hlen : (utf8 done).length + step b = (utf8 (done ++ [c])).length := by
        rw [hstep, utf8_append, List.length_append]
        change _ = _ + (utf8Char c ++ []).length
        rw [List.append_nil]
      have hsplit : ∀ cs, done ++ c :: cs = (done ++ [c]) ++ cs := fun cs => by simp
      rw [byteOffsetFrom, hnext, List.take_succ_cons, hsplit points, hsplit (points.take k)]
      dsimp only
      rw [hlen, ih]

theorem byteOffset_le (s : Text) (k : ℕ) : byteOffset s k ≤ s.length := Nat.min_le_right _ _

theorem utf8_split (points : List Char) (k : ℕ) :
    utf8 points = utf8 (points.take k) ++ utf8 (points.drop k) := by
  rw [← utf8_append, List.take_append_drop]

theorem byteOffset_utf8 (points : List Char) (k : ℕ) :
    byteOffset (utf8 points) k = (utf8 (points.take k)).length := by
  have h := byteOffsetFrom_utf8 [] points k
  have hle : (utf8 (points.take k)).length ≤ (utf8 points).length := by
    rw [utf8_split points k, List.length_append]
    omega
  rw [byteOffset, Nat.min_eq_left]
  · exact h
  · exact h.trans_le hle

theorem take_byteOffset (points : List Char) (k : ℕ) :
    (utf8 points).take (byteOffset (utf8 points) k) = utf8 (points.take k) := by
  rw [byteOffset_utf8, utf8_split points k, List.take_left]

theorem drop_byteOffset (points : List Char) (k : ℕ) :
    (utf8 points).drop (byteOffset (utf8 points) k) = utf8 (points.drop k) := by
  rw [byteOffset_utf8, utf8_split points k, List.drop_left]

theorem byteOffset_lt (hjk : j < k) (hk : k ≤ points.length) :
    byteOffset (utf8 points) j < byteOffset (utf8 points) k := by
  rw [byteOffset_utf8, byteOffset_utf8]
  obtain ⟨c, hc⟩ : ∃ c, (points.take k).drop j = c :: (points.take k).drop (j + 1) :=
    ⟨_, List.drop_eq_getElem_cons (by rw [List.length_take]; omega)⟩
  have hsplit := List.take_append_drop j (points.take k)
  rw [List.take_take, Nat.min_eq_left hjk.le, hc] at hsplit
  rw [← hsplit, utf8_append, List.length_append]
  change _ < _ + (utf8Char c ++ _).length
  have := length_utf8Char_pos c
  rw [List.length_append]
  omega

/-- On a valid text the offset is that of the character, between two characters and further on for
each further one; on any bytes it lies in the text. -/
theorem byteOffset_exact :
    (∀ points k, byteOffset (utf8 points) k = (utf8 (points.take (min k points.length))).length ∧
      (utf8 points).take (byteOffset (utf8 points) k) = utf8 (points.take k) ∧
      (utf8 points).drop (byteOffset (utf8 points) k) = utf8 (points.drop k)) ∧
    (∀ points j k, j < k → k ≤ points.length →
      byteOffset (utf8 points) j < byteOffset (utf8 points) k) ∧
    ∀ s k, byteOffset s k ≤ s.length := by
  refine ⟨fun points k => ⟨?_, take_byteOffset points k, drop_byteOffset points k⟩,
    fun points j k => byteOffset_lt, byteOffset_le⟩
  rw [byteOffset_utf8, ← List.take_eq_take_min]

/-- The error of a valid text is marked at its character. -/
theorem checkPostgres_marks {pg_query_parse : Text → Option PgQueryError} {error : SyntaxError}
    (h : checkPostgres pg_query_parse (utf8 points) = some error) :
    ∃ e, pg_query_parse (cstr (utf8 points)) = some e ∧
      (utf8 points).drop error.offset = utf8 (points.drop (e.cursorpos - 1).toNat) := by
  rw [checkPostgres] at h
  cases he : pg_query_parse (cstr (utf8 points)) with
  | none =>
    rw [he] at h
    cases h
  | some e =>
    rw [he] at h
    obtain rfl := Option.some_inj.mp h
    refine ⟨e, rfl, ?_⟩
    dsimp only
    split_ifs with hpos
    · exact drop_byteOffset points _
    · have hzero : (e.cursorpos - 1).toNat = 0 := by omega
      rw [hzero, List.drop_zero, List.drop_zero]

end Offsets
end DearSql
