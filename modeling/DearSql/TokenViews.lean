import DearSql.Nesting

/-! The tokens of a statement from an index on, what the analyzer asks of one token, and the names
that no walk of the analyzer takes for a keyword. -/
namespace DearSql
open Lexing Loops

section Views

/-- From index `i` on, the tokens are `ts`. -/
def Sees (toks : List Sym) (i : ℤ) (ts : List Sym) : Prop := ∃ pre, toks = pre ++ ts ∧ i = pre.length

variable {toks xs ys ts : List Sym} {i : ℤ} {t : Sym}

theorem sees_all (toks : List Sym) : Sees toks 0 toks := ⟨[], rfl, rfl⟩

theorem Sees.drop (h : Sees toks i (xs ++ ys)) : Sees toks (i + xs.length) ys := by
  obtain ⟨pre, rfl, rfl⟩ := h
  exact ⟨pre ++ xs, by simp, by simp⟩

theorem Sees.tail (h : Sees toks i (t :: ts)) : Sees toks (i + 1) ts := by
  have h' : Sees toks i ([t] ++ ts) := h
  exact h'.drop

theorem Sees.at (h : Sees toks i ts) : at? toks i = ts.head? := by
  obtain ⟨pre, rfl, rfl⟩ := h
  rw [at?_ofNat]
  cases ts <;> simp

theorem Sees.isPunct (h : Sees toks i ts) (c : Char) :
    isPunct toks i c = decide (ts.head? = some (.punct c)) := by
  rw [DearSql.isPunct, h.at]

theorem Sees.nonneg (h : Sees toks i ts) : 0 ≤ i := by
  obtain ⟨pre, -, rfl⟩ := h
  omega

theorem Sees.length (h : Sees toks i ts) : i + ts.length = toks.length := by
  obtain ⟨pre, rfl, rfl⟩ := h
  simp

theorem Sees.lt (h : Sees toks i (t :: ts)) : i < toks.length := by
  have := h.length
  simp only [List.length_cons] at this
  omega

end Views

section Single

def Sym.isKw (t : Sym) (kw : String) : Bool :=
  match t with
  | .word w => ieq w kw.toList
  | _ => false

def Sym.isKwIn (t : Sym) (kws : List String) : Bool := kws.any t.isKw

def Sym.isIdent : Sym → Bool
  | .word _ | .quotedIdent _ => true
  | _ => false

def Sym.isNameIdent : Sym → Bool
  | .word w => !inSet notAliasWords w
  | .quotedIdent _ => true
  | _ => false

variable {toks : List Sym} {i : ℤ} {t : Sym} (h : at? toks i = some t)
include h

theorem isKw_of_at (kw : String) : isKw toks i kw = t.isKw kw := by
  unfold isKw
  rw [h]
  cases t <;> rfl

theorem isKwIn_of_at (kws : List String) : isKwIn toks i kws = t.isKwIn kws := by
  simp only [isKwIn, Sym.isKwIn, isKw_of_at h]

theorem isIdent_of_at : isIdent toks i = t.isIdent := by
  unfold isIdent
  rw [h]
  cases t <;> rfl

theorem isNameIdent_of_at : isNameIdent toks i = t.isNameIdent := by
  unfold isNameIdent
  rw [h]
  cases t <;> rfl

theorem isPunct_of_at (c : Char) : isPunct toks i c = decide (t = .punct c) := by
  simp [isPunct, h]

theorem textAt_of_at : textAt toks i = some t.text := by
  rw [textAt, h]
  rfl

end Single

section Past

variable {toks : List Sym} {i : ℤ} (h : at? toks i = none)
include h

theorem isKw_past (kw : String) : isKw toks i kw = false := by simp [isKw, h]

theorem isPunct_past (c : Char) : isPunct toks i c = false := by simp [isPunct, h]

theorem isNameIdent_past : isNameIdent toks i = false := by simp [isNameIdent, h]

end Past

section Names

/-- The words that a walk of the analyzer looks for. -/
def walkWords : List String :=
  ["FROM", "USING", "JOIN", "UPDATE", "INTO", "TABLE", "STRAIGHT_JOIN", "LATERAL", "ONLY", "IF",
    "NOT", "EXISTS", "AS", "WITH", "RECURSIVE", "MATERIALIZED", "SELECT", "WHERE", "ON", "HAVING",
    "BY", "SET", "RETURNING", "VALUES", "OUTPUT", "QUALIFY", "WHEN", "THEN", "ELSE", "LIMIT",
    "OFFSET", "FETCH", "TOP", "DISTINCT", "CREATE", "ALTER"]

def Sym.isPlain (t : Sym) : Bool :=
  t.isNameIdent && walkWords.all (fun kw => !t.isKw kw) && decide (t.text ≠ [])

/-- A name that is quoted, or a word that the analyzer gives no other meaning. -/
structure Name where
  sym : Sym
  plain : sym.isPlain = true

namespace Name

variable (n : Name)

def text : Text := n.sym.text

theorem isNameIdent : n.sym.isNameIdent = true := by
  have h := n.plain
  simp only [Sym.isPlain, Bool.and_eq_true] at h
  exact h.1.1

theorem isIdent : n.sym.isIdent = true := by
  have h := n.isNameIdent
  cases hs : n.sym <;> simp_all [Sym.isNameIdent, Sym.isIdent]

theorem text_ne : n.text ≠ [] := by
  have h := n.plain
  simp only [Sym.isPlain, Bool.and_eq_true, decide_eq_true_eq] at h
  exact h.2

theorem isKw {kw : String} (hkw : kw ∈ walkWords) : n.sym.isKw kw = false := by
  have h := n.plain
  simp only [Sym.isPlain, Bool.and_eq_true, List.all_eq_true] at h
  simpa using h.1.2 kw hkw

theorem isKwIn {kws : List String} (hkws : ∀ kw ∈ kws, kw ∈ walkWords) :
    n.sym.isKwIn kws = false := by
  rw [Sym.isKwIn, List.any_eq_false]
  exact fun kw hkw => by simp [n.isKw (hkws kw hkw)]

theorem ne_punct (c : Char) : n.sym ≠ .punct c := by
  intro h
  have hid := n.isIdent
  rw [h] at hid
  cases hid

end Name
end Names
end DearSql
