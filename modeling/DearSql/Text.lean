import Mathlib

/-! Byte strings of the source. A `Char` stands for one byte of a `std::string`;
bytes from 0x80 up are the characters with those codes. Every function below looks
at a byte only through its code, as the C locale does. -/
namespace DearSql

abbrev Text := List Char

instance : LawfulBEq Text := inferInstance

def isspace (c : Char) : Bool :=
  c = ' ' || c = '\t' || c = '\n' || c = '\x0b' || c = '\x0c' || c = '\r'

def isalpha (c : Char) : Bool := c.isAlpha

def isdigit (c : Char) : Bool := c.isDigit

def isalnum (c : Char) : Bool := isalpha c || isdigit c

def lower (s : Text) : Text := s.map Char.toLower

def find (pat : Text) : Text → Option ℕ
  | [] => if pat = [] then some 0 else none
  | c :: cs => if pat.isPrefixOf (c :: cs) then some 0 else (find pat cs).map (· + 1)

def contains (pat s : Text) : Bool := (find pat s).isSome

/-- What a C function reads of a text: a C string ends at its first NUL. -/
def cstr (s : Text) : Text := s.takeWhile (· ≠ '\x00')

def leadingNat (s : Text) : Option ℕ :=
  if s.takeWhile isdigit = [] then none else some (Nat.ofDigitChars 10 (s.takeWhile isdigit) 0)

/-- The number at the front of a text: blanks, a sign, digits. -/
def leadingInt (s : Text) : Option ℤ :=
  match s.dropWhile isspace with
  | '-' :: ds => (leadingNat ds).map fun n => -(n : ℤ)
  | '+' :: ds => (leadingNat ds).map fun n => (n : ℤ)
  | ds => (leadingNat ds).map fun n => (n : ℤ)

def atoi (s : Text) : ℤ := (leadingInt s).getD 0

/-- `std::stoi`; it throws where there is no number or none an `int` can hold. -/
def stoi (s : Text) : Option ℤ := (leadingInt s).filter fun n => -2 ^ 31 ≤ n ∧ n < 2 ^ 31

def strtoull (s : Text) : ℕ :=
  match leadingInt s with
  | some n => if 0 ≤ n then min n.toNat (2 ^ 64 - 1) else (n % 2 ^ 64).toNat
  | none => 0

/-- An `int` as `%d` and `std::to_string` write it. -/
def itoa : ℤ → Text
  | .ofNat n => Nat.toDigits 10 n
  | .negSucc n => '-' :: Nat.toDigits 10 (n + 1)

theorem leadingNat_toDigits (n : ℕ) : leadingNat (Nat.toDigits 10 n) = some n := by
  have hall : ∀ c ∈ Nat.toDigits 10 n, isdigit c = true := fun c hc =>
    Nat.isDigit_of_mem_toDigits (by decide) (by decide) hc
  have hw : (Nat.toDigits 10 n).takeWhile isdigit = Nat.toDigits 10 n :=
    List.takeWhile_eq_self_iff.mpr hall
  rw [leadingNat, hw, if_neg Nat.toDigits_ne_nil, Nat.ofDigitChars_ten_toDigits]

theorem leadingInt_itoa (i : ℤ) : leadingInt (itoa i) = some i := by
  cases i with
  | ofNat n =>
    obtain ⟨c, cs, hcs⟩ := List.exists_cons_of_ne_nil (@Nat.toDigits_ne_nil n 10)
    have hd : isdigit c = true := by
      have hmem : c ∈ Nat.toDigits 10 n := by simp [hcs]
      exact Nat.isDigit_of_mem_toDigits (by decide) (by decide) hmem
    have hc : isspace c = false ∧ c ≠ '-' ∧ c ≠ '+' := by
      refine ⟨?_, ?_, ?_⟩
      · by_contra hs
        simp only [isspace, Bool.or_eq_true, decide_eq_true_eq, Bool.not_eq_false] at hs
        rcases hs with ((((rfl | rfl) | rfl) | rfl) | rfl) | rfl <;> exact absurd hd (by decide)
      · rintro rfl
        exact absurd hd (by decide)
      · rintro rfl
        exact absurd hd (by decide)
    have hn := leadingNat_toDigits n
    have hdrop : (Nat.toDigits 10 n).dropWhile isspace = Nat.toDigits 10 n := by
      simp [hcs, hc.1]
    rw [itoa, leadingInt, hdrop]
    split
    · rename_i h
      rw [hcs] at h
      exact absurd (List.cons.inj h).1 hc.2.1
    · rename_i h
      rw [hcs] at h
      exact absurd (List.cons.inj h).1 hc.2.2
    · rw [hn]
      rfl
  | negSucc n =>
    have hs : isspace '-' = false := by decide
    simp [leadingInt, itoa, hs, leadingNat_toDigits, Int.negSucc_eq]

def doubleQuotes : Text → Text
  | [] => []
  | c :: cs => if c = '"' then '"' :: '"' :: doubleQuotes cs else c :: doubleQuotes cs

/-- `quoteIdent` of the PostgreSQL and Cassandra backends. -/
def quoteIdent (s : Text) : Text := '"' :: doubleQuotes s ++ ['"']

/-- What a server reads back inside double quotes: pairs of quotes are one quote, a
single quote ends the identifier. -/
def unquote : Text → Option (Text × Text)
  | [] => none
  | '"' :: '"' :: cs => (unquote cs).map fun r => ('"' :: r.1, r.2)
  | '"' :: cs => some ([], cs)
  | c :: cs => (unquote cs).map fun r => (c :: r.1, r.2)

theorem unquote_doubleQuotes (s : Text) :
    unquote (doubleQuotes s ++ ['"']) = some (s, []) := by
  induction s with
  | nil => rfl
  | cons c cs ih =>
    by_cases hc : c = '"'
    · subst hc
      simp only [doubleQuotes, if_true, List.cons_append, unquote, ih, Option.map_some]
    · simp only [doubleQuotes, if_neg hc, List.cons_append]
      rw [unquote]
      · simp [ih]
      · exact fun _ h => absurd h hc
      · exact hc

theorem isspace_ne_of_isalpha {c : Char} (h : isalpha c = true) : isspace c = false := by
  by_contra hs
  simp only [isspace, Bool.or_eq_true, decide_eq_true_eq, Bool.not_eq_false] at hs
  rcases hs with ((((rfl | rfl) | rfl) | rfl) | rfl) | rfl <;> simp [isalpha] at h

end DearSql
