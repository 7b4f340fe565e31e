import DearSql.TokenScan
import DearSql.SqlBuilder

/-! What the tokenizer makes of a text put together from pieces: each piece is read as the
tokens it has by itself, whatever the pieces next to it hold. -/
namespace DearSql
open Lexing

/-- The tokens of a text without their ranges. -/
def infosFrom (d : Dialect) (prev : Option Char) (s : Text) : List TokInfo :=
  (lexFrom (scanToken d) prev 0 0 s).map Lexeme.kind

def infos (d : Dialect) (s : Text) : List TokInfo := (tokenize s d).map Lexeme.kind

section Steps

variable {d : Dialect} {prev : Option Char}

@[simp] theorem infosFrom_nil : infosFrom d prev [] = [] := by simp [infosFrom, lexFrom_nil]

theorem infos_eq (s : Text) : infos d s = infosFrom d none s := rfl

theorem map_kind_lexFrom (pos : ℕ) (s : Text) :
    (lexFrom (scanToken d) prev pos 0 s).map Lexeme.kind = infosFrom d prev s := by
  rw [lexFrom_eq_shift, List.map_map]
  rfl

theorem infosFrom_blank {c : Char} (hc : isspace c = true) (s : Text) :
    infosFrom d prev (c :: s) = infosFrom d (some c) s := by
  rw [infosFrom, lexFrom_pass (scanToken_eq_none.mpr hc), map_kind_lexFrom]

theorem infosFrom_take {s : Text} {t : TokInfo} {n : ℕ} (h : scanToken d prev s = some (t, n)) :
    infosFrom d prev s = t :: infosFrom d (lastOf prev (s.take n)) (s.drop n) := by
  rw [infosFrom, lexFrom_step (bounded_scanToken d) h, List.map_cons, map_kind_lexFrom]

theorem infosFrom_scan {u rest : Text} {t : TokInfo}
    (h : scanToken d prev (u ++ rest) = some (t, u.length)) :
    infosFrom d prev (u ++ rest) = t :: infosFrom d (lastOf prev u) rest := by
  rw [infosFrom_take h, List.take_left, List.drop_left]

theorem infosFrom_congr {p q : Option Char} {s : Text} (h : scanToken d p s = scanToken d q s) :
    infosFrom d p s = infosFrom d q s := by
  rw [infosFrom, infosFrom, lexFrom_congr h]

theorem infosFrom_neutral (h : Neutral prev) (s : Text) : infosFrom d prev s = infosFrom d none s :=
  infosFrom_congr (scanToken_neutral h s)

theorem infosFrom_stops {s : Text} (h : Stops s) (p : Option Char) :
    infosFrom d p s = infosFrom d none s := by
  cases s with
  | nil => simp
  | cons c s => exact infosFrom_congr (scanToken_break p (stops_cons.mp h) s)

end Steps

/-- A piece read as `ts` where the text after it stops or breaks. -/
def Reads (d : Dialect) (p : Text) (ts : List TokInfo) : Prop :=
  ∀ prev rest, Neutral prev → Stops rest →
    infosFrom d prev (p ++ rest) = ts ++ infosFrom d none rest

/-- A piece read as `ts` whatever comes after it. -/
def ReadsOn (d : Dialect) (p : Text) (ts : List TokInfo) : Prop :=
  ∀ prev rest, Neutral prev → infosFrom d prev (p ++ rest) = ts ++ infosFrom d none rest

/-- A piece that starts with a break. -/
def Breaks (p : Text) : Prop := Stops p ∧ p ≠ []

theorem breaks_of {p : Text} (h : p.head?.any isBreak = true) : Breaks p := by
  cases p with
  | nil => simp at h
  | cons c p => exact ⟨stops_cons.mpr (by simpa using h), by simp⟩

section Compose

variable {d : Dialect} {p q : Text} {ts us : List TokInfo}

theorem Breaks.append (h : Breaks p) (q : Text) : Breaks (p ++ q) := by
  obtain ⟨c, cs, rfl⟩ := List.exists_cons_of_ne_nil h.2
  exact ⟨stops_cons.mpr (stops_cons.mp h.1), by simp⟩

theorem Stops.append (h : Stops p) (hq : Stops q) : Stops (p ++ q) := by
  cases p with
  | nil => exact hq
  | cons c p => exact stops_cons.mpr (stops_cons.mp h)

theorem ReadsOn.reads (h : ReadsOn d p ts) : Reads d p ts := fun prev rest hp _ => h prev rest hp

theorem Reads.append (h : Reads d p ts) (h' : Reads d q us) (hq : Stops q) :
    Reads d (p ++ q) (ts ++ us) := fun prev rest hp hs => by
  rw [List.append_assoc, h prev _ hp (hq.append hs), h' none rest neutral_none hs,
    List.append_assoc]

theorem ReadsOn.append (h : ReadsOn d p ts) (h' : Reads d q us) : Reads d (p ++ q) (ts ++ us) :=
  fun prev rest hp hs => by
    rw [List.append_assoc, h prev _ hp, h' none rest neutral_none hs, List.append_assoc]

theorem Reads.infos (h : Reads d p ts) : infos d p = ts := by
  have := h none [] neutral_none Stops.nil
  rwa [List.append_nil, infosFrom_nil, List.append_nil] at this

end Compose

section Literals

/-- A text whose tokens text after it leaves alone is read as those tokens. -/
theorem reads_of_whole {d : Dialect} {p : Text} (h : ∀ t ∈ infos d p, t.whole) :
    Reads d p (infos d p) := fun prev rest hp hs => by
  have hw : ∀ x ∈ tokenize p d, x.kind.whole := fun x hx => h _ (List.mem_map_of_mem hx)
  have hsw : Swap (scanToken d) TokInfo.whole [] rest := fun q r hr => by
    have hswap := @swap_scanToken d [] rest hs q r hr
    exact ⟨hswap.1, fun t n h1 h2 h3 => hswap.2 t n h1 h2 fun he => .inr (.inr (h3 he))⟩
  obtain ⟨xs, -, h1, h2⟩ := @lexFrom_swap _ _ _ (bounded_scanToken d) TokInfo.whole [] rest hsw none 0 p
    (fun x hx => by
      rw [List.append_nil] at hx
      have := stop_le (bounded_scanToken d) hx
      exact ⟨.inl this, fun _ => hw x hx⟩)
  rw [lexFrom, List.append_nil, List.append_nil] at h1
  rw [infosFrom_neutral hp, infosFrom, h2, ← h1, List.map_append, map_kind_lexFrom,
    map_kind_lexFrom, infosFrom_stops hs (lastOf none p)]
  rfl

/-- A text that ends in a byte outside its longer tokens: a blank, a comma, a semicolon, an
opening parenthesis or an equals sign. -/
def endsOpen (d : Dialect) (p : Text) : Bool :=
  match p.getLast? with
  | none => false
  | some c => (isBreak c && c ≠ ')') &&
      (tokenize p d).all fun x => x.stop ≤ p.length - 1 || p.length - 1 ≤ x.start

theorem neutral_open {c : Char} (h : isBreak c = true) (hc : c ≠ ')') : Neutral (some c) := by
  have hq := quiet_of_isBreak h
  rintro p ⟨⟩
  refine ⟨hq.ident, hq.quotes.2.1, hq.quotes.2.2.1, hq.quotes.2.2.2, hc, ?_⟩
  rintro rfl
  exact absurd h (by decide)

/-- A break that is no blank is a token of its own. -/
theorem scan_break {d : Dialect} (prev : Option Char) {c : Char} (h : isBreak c = true)
    (hsp : isspace c = false) : ∃ t, ∀ v, scanToken d prev (c :: v) = some (t, 1) := by
  simp only [isBreak, hsp, Bool.false_or, Bool.or_eq_true, decide_eq_true_eq] at h
  rcases h with (((rfl | rfl) | rfl) | rfl) | rfl <;>
    exact ⟨_, fun v => by rw [scanToken_break prev (by decide)]; rfl⟩

/-- The last byte of such a text is read by itself. -/
theorem infosFrom_break {d : Dialect} (prev : Option Char) {c : Char} (h : isBreak c = true)
    (w : Text) : infosFrom d prev (c :: w) = infosFrom d prev [c] ++ infosFrom d (some c) w := by
  by_cases hsp : isspace c = true
  · rw [infosFrom_blank hsp, infosFrom_blank hsp, infosFrom_nil, List.nil_append]
  · obtain ⟨t, ht⟩ := scan_break (d := d) prev h (by simpa using hsp)
    have hscan : ∀ v : Text, scanToken d prev ([c] ++ v) = some (t, [c].length) := ht
    have e1 := infosFrom_scan (hscan w)
    have e2 := infosFrom_scan (hscan [])
    rw [List.append_nil] at e2
    rw [List.cons_append, List.nil_append] at e1
    rw [e1, e2, infosFrom_nil]
    rfl

theorem readsOn_of_endsOpen {d : Dialect} {p : Text} (h : endsOpen d p = true) :
    ReadsOn d p (infos d p) := fun prev rest hp => by
  unfold endsOpen at h
  cases hl : p.getLast? with
  | none => simp [hl] at h
  | some c =>
    rw [hl] at h
    obtain ⟨hc, hall⟩ := Bool.and_eq_true_iff.mp h
    obtain ⟨hbreak, hne⟩ := Bool.and_eq_true_iff.mp hc
    have hne : c ≠ ')' := by simpa using hne
    obtain ⟨r, rfl⟩ : ∃ r, p = r ++ [c] := ⟨p.dropLast, (List.dropLast_append_getLast? c hl).symm⟩
    have hlen : (r ++ [c]).length - 1 = r.length := by simp
    have hsw : Swap (scanToken d) (fun _ => True) [c] (c :: rest) := fun q s hs => by
      have hswap := @swap_scanToken d [c] (c :: rest) (stops_cons.mpr hbreak) q s hs
      exact ⟨hswap.1, fun t n h1 h2 _ => hswap.2 t n h1 h2 fun _ => .inr (.inl rfl)⟩
    obtain ⟨xs, -, h1, h2⟩ := @lexFrom_swap _ _ _ (bounded_scanToken d) (fun _ => True) [c] (c :: rest)
      hsw none 0 r (fun x hx => by
        have := List.all_eq_true.mp hall x hx
        rw [hlen] at this
        simp only [Bool.or_eq_true, decide_eq_true_eq] at this
        exact ⟨by omega, fun _ => trivial⟩)
    rw [infosFrom_neutral hp, infos, tokenize, lex, h1, List.append_assoc, List.cons_append,
      List.nil_append, infosFrom, h2, List.map_append, List.map_append, map_kind_lexFrom,
      map_kind_lexFrom, infosFrom_break _ hbreak, infosFrom_neutral (neutral_open hbreak hne),
      List.append_assoc]

end Literals
end DearSql
