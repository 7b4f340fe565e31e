import DearSql.Lexing

/-! Runs of a scanner that stays inside the text: where its lexemes lie, and what they are
when the text goes on differently or stops. -/
namespace DearSql.Lexing

variable {α τ : Type*} {scan : Scanner α τ}

/-- The element before the position after `r`. -/
def lastOf : Option α → List α → Option α
  | prev, [] => prev
  | _, c :: cs => lastOf (some c) cs

@[simp] theorem lastOf_nil (prev : Option α) : lastOf prev [] = prev := rfl

@[simp] theorem lastOf_cons (prev : Option α) (c : α) (cs : List α) :
    lastOf prev (c :: cs) = lastOf (some c) cs := rfl

@[simp] theorem lastOf_append (prev : Option α) (r v : List α) :
    lastOf prev (r ++ v) = lastOf (lastOf prev r) v := by
  induction r generalizing prev with
  | nil => rfl
  | cons c cs ih => exact ih (some c)

theorem lexFrom_skip (prev : Option α) (pos k : ℕ) (s : List α) :
    lexFrom scan prev pos k s =
      lexFrom scan (lastOf prev (s.take k)) (pos + k) 0 (s.drop k) := by
  induction s generalizing prev pos k with
  | nil => cases k <;> simp [lexFrom_nil]
  | cons c cs ih =>
    cases k with
    | zero => rfl
    | succ k =>
      rw [lexFrom, ih, Nat.add_assoc, Nat.add_comm 1 k]
      rfl

/-- What a scanner takes is not empty and lies in the text. -/
def Bounded (scan : Scanner α τ) : Prop :=
  ∀ p s t n, scan p s = some (t, n) → 0 < n ∧ n ≤ s.length

theorem lexFrom_step (hb : Bounded scan) {prev : Option α} {pos n : ℕ} {s : List α} {t : τ}
    (h : scan prev s = some (t, n)) :
    lexFrom scan prev pos 0 s =
      ⟨t, pos, pos + n⟩ :: lexFrom scan (lastOf prev (s.take n)) (pos + n) 0 (s.drop n) := by
  obtain ⟨hpos, hle⟩ := hb _ _ _ _ h
  cases s with
  | nil =>
    rw [List.length_nil] at hle
    omega
  | cons c cs =>
    obtain ⟨m, rfl⟩ : ∃ m, n = m + 1 := ⟨n - 1, by omega⟩
    rw [lexFrom_take h, Nat.max_eq_left hpos, Nat.add_sub_cancel, lexFrom_skip, Nat.add_assoc,
      Nat.add_comm 1 m]
    rfl

/-- The elements a lexeme still has to take, in two parts. -/
theorem lexFrom_part (prev : Option α) (pos n k : ℕ) (s : List α) :
    lexFrom scan prev pos (n + k) s =
      lexFrom scan (lastOf prev (s.take n)) (pos + n) k (s.drop n) := by
  rw [lexFrom_skip, lexFrom_skip _ (pos + n), List.drop_drop, Nat.add_assoc, ← lastOf_append,
    ← List.take_add]

/-- Induction along a run: an element passed over, or a lexeme taken. -/
@[elab_as_elim]
theorem Bounded.induct (hb : Bounded scan) {motive : Option α → List α → Prop}
    (nil : ∀ prev, motive prev [])
    (pass : ∀ prev c cs, scan prev (c :: cs) = none → motive (some c) cs → motive prev (c :: cs))
    (take : ∀ prev s t n, scan prev s = some (t, n) → 0 < n → n ≤ s.length →
      motive (lastOf prev (s.take n)) (s.drop n) → motive prev s)
    (prev : Option α) (s : List α) : motive prev s := by
  induction hl : s.length using Nat.strong_induction_on generalizing prev s with
  | _ l ih =>
    subst hl
    cases s with
    | nil => exact nil prev
    | cons c cs =>
      cases hs : scan prev (c :: cs) with
      | none => exact pass prev c cs hs (ih cs.length (by simp) _ _ rfl)
      | some r =>
        obtain ⟨hpos, hle⟩ := hb _ _ _ _ hs
        refine take prev _ r.1 r.2 hs hpos hle (ih _ ?_ _ _ rfl)
        rw [List.length_drop]
        omega

def Lexeme.shift (k : ℕ) (x : Lexeme τ) : Lexeme τ := ⟨x.kind, x.start + k, x.stop + k⟩

@[simp] theorem Lexeme.shift_kind (k : ℕ) (x : Lexeme τ) : (x.shift k).kind = x.kind := rfl

@[simp] theorem Lexeme.shift_start (k : ℕ) (x : Lexeme τ) : (x.shift k).start = x.start + k := rfl

@[simp] theorem Lexeme.shift_stop (k : ℕ) (x : Lexeme τ) : (x.shift k).stop = x.stop + k := rfl

theorem lexFrom_shift (prev : Option α) (pos k skip : ℕ) (s : List α) :
    lexFrom scan prev (pos + k) skip s = (lexFrom scan prev pos skip s).map (Lexeme.shift k) := by
  induction s generalizing prev pos skip with
  | nil => simp [lexFrom_nil]
  | cons c cs ih =>
    have hpos : pos + k + 1 = pos + 1 + k := Nat.add_right_comm _ _ _
    cases skip with
    | succ m => rw [lexFrom, lexFrom, hpos, ih]
    | zero =>
      cases hs : scan prev (c :: cs) with
      | none => rw [lexFrom_pass hs, lexFrom_pass hs, hpos, ih]
      | some r =>
        rw [lexFrom_take hs, lexFrom_take hs, hpos, ih, List.map_cons, Lexeme.shift,
          Nat.add_right_comm]

theorem lexFrom_eq_shift (prev : Option α) (pos : ℕ) (s : List α) :
    lexFrom scan prev pos 0 s = (lexFrom scan prev 0 0 s).map (Lexeme.shift pos) := by
  rw [← lexFrom_shift, Nat.zero_add]

theorem lexFrom_congr {p q : Option α} {s : List α} (h : scan p s = scan q s) (pos : ℕ) :
    lexFrom scan p pos 0 s = lexFrom scan q pos 0 s := by
  cases s with
  | nil => rfl
  | cons c cs => rw [lexFrom, lexFrom, h]

section Where

theorem stop_le (hb : Bounded scan) {prev : Option α} {pos : ℕ} {s : List α} {x : Lexeme τ}
    (hx : x ∈ lexFrom scan prev pos 0 s) : x.stop ≤ pos + s.length := by
  induction prev, s using hb.induct generalizing pos with
  | nil prev => simp [lexFrom_nil] at hx
  | pass prev c cs hs ih =>
    rw [lexFrom_pass hs] at hx
    have := ih hx
    rw [List.length_cons]
    omega
  | take prev s t n hs hpos hle ih =>
    rw [lexFrom_step hb hs] at hx
    rcases List.mem_cons.mp hx with rfl | hx
    · exact Nat.add_le_add_left hle _
    · have := ih hx
      rw [List.length_drop] at this
      omega

theorem stop_le_start (hb : Bounded scan) (prev : Option α) (pos : ℕ) (s : List α) :
    (lexFrom scan prev pos 0 s).Pairwise fun x y => x.stop ≤ y.start := by
  induction prev, s using hb.induct generalizing pos with
  | nil prev => simp [lexFrom_nil]
  | pass prev c cs hs ih =>
    rw [lexFrom_pass hs]
    exact ih _
  | take prev s t n hs hpos hle ih =>
    rw [lexFrom_step hb hs]
    exact List.pairwise_cons.mpr ⟨fun y hy => start_ge hy, ih _⟩

/-- An element is in a lexeme or the scanner passes over it. -/
theorem covered (hb : Bounded scan) {blank : α → Prop}
    (hpass : ∀ p c cs, scan p (c :: cs) = none → blank c) {prev : Option α} {pos : ℕ} {s : List α}
    {i : ℕ} (hi : i < s.length) :
    blank s[i] ∨ ∃ x ∈ lexFrom scan prev pos 0 s, x.start ≤ pos + i ∧ pos + i < x.stop := by
  induction prev, s using hb.induct generalizing pos i with
  | nil prev => simp at hi
  | pass prev c cs hs ih =>
    rw [lexFrom_pass hs]
    cases i with
    | zero => exact .inl (hpass _ _ _ hs)
    | succ i =>
      have := @ih (pos + 1) i (by simpa using hi)
      rwa [Nat.add_assoc, Nat.add_comm 1 i] at this
  | take prev s t n hs hpos hle ih =>
    rw [lexFrom_step hb hs]
    by_cases hin : i < n
    · exact .inr ⟨_, List.mem_cons_self, Nat.le_add_right _ _, Nat.add_lt_add_left hin _⟩
    · obtain ⟨j, rfl⟩ : ∃ j, i = n + j := ⟨i - n, by omega⟩
      have hj : j < (s.drop n).length := by
        rw [List.length_drop]
        omega
      rcases @ih (pos + n) j hj with h | ⟨x, hx, h1, h2⟩
      · exact .inl (by simpa using h)
      · rw [Nat.add_assoc] at h1 h2
        exact .inr ⟨x, List.mem_cons_of_mem _ hx, h1, h2⟩

theorem pairwise_cases {α : Type*} {R : α → α → Prop} {l : List α} (h : l.Pairwise R) {x y : α}
    (hx : x ∈ l) (hy : y ∈ l) : x = y ∨ R x y ∨ R y x := by
  induction l with
  | nil => simp at hx
  | cons z zs ih =>
    obtain ⟨hz, hzs⟩ := List.pairwise_cons.mp h
    rcases List.mem_cons.mp hx with h1 | h1 <;> rcases List.mem_cons.mp hy with h2 | h2
    · exact .inl (h1.trans h2.symm)
    · exact .inr (.inl (h1 ▸ hz y h2))
    · exact .inr (.inr (h2 ▸ hz x h1))
    · exact ih hzs h1 h2

/-- A lexeme that takes the text to its end is the last one. -/
theorem getLast?_of_stop (hb : Bounded scan) {prev : Option α} {pos : ℕ} {s : List α}
    {x : Lexeme τ} (hx : x ∈ lexFrom scan prev pos 0 s) (he : x.stop = pos + s.length) :
    (lexFrom scan prev pos 0 s).getLast? = some x := by
  have hp := stop_le_start hb prev pos s
  obtain ⟨l, r, hl⟩ := List.append_of_mem hx
  cases r with
  | nil => simp [hl]
  | cons y ys =>
    have hy : y ∈ lexFrom scan prev pos 0 s := by simp [hl]
    rw [hl] at hp
    have h1 := (List.pairwise_cons.mp (List.pairwise_append.mp hp).2.1).1 y (by simp)
    have h2 := start_lt_stop hy
    have h3 := stop_le hb hy
    omega

/-- The scan that gave a lexeme. -/
theorem scan_of_mem (hb : Bounded scan) {prev : Option α} {pos : ℕ} {s : List α} {x : Lexeme τ}
    (hx : x ∈ lexFrom scan prev pos 0 s) :
    scan (lastOf prev (s.take (x.start - pos))) (s.drop (x.start - pos)) =
      some (x.kind, x.stop - x.start) := by
  induction prev, s using hb.induct generalizing pos with
  | nil prev => simp [lexFrom_nil] at hx
  | pass prev c cs hs ih =>
    rw [lexFrom_pass hs] at hx
    have hge := start_ge hx
    have he : x.start - pos = x.start - (pos + 1) + 1 := by omega
    rw [he]
    exact ih hx
  | take prev s t n hs hpos hle ih =>
    rw [lexFrom_step hb hs] at hx
    rcases List.mem_cons.mp hx with rfl | hx
    · simpa using hs
    · have hge := start_ge hx
      have he : x.start - pos = n + (x.start - (pos + n)) := by omega
      rw [he, List.take_add, lastOf_append, ← List.drop_drop]
      exact ih hx

end Where

section Swap

/-- Up to its end a lexeme in `r` is the same before `v'` as before `v`; one that ends where
`r` does must be `ok`. -/
def Swap (scan : Scanner α τ) (ok : τ → Prop) (v v' : List α) : Prop :=
  ∀ p r, r ≠ [] →
    (scan p (r ++ v) = none → scan p (r ++ v') = none) ∧
    ∀ t n, scan p (r ++ v) = some (t, n) → n ≤ r.length → (n = r.length → ok t) →
      scan p (r ++ v') = some (t, n)

/-- No lexeme goes over the seam `pos`, and one that ends there is `ok`. -/
def SeamAt (ok : τ → Prop) (pos : ℕ) (xs : List (Lexeme τ)) : Prop :=
  ∀ x ∈ xs, (x.stop ≤ pos ∨ pos ≤ x.start) ∧ (x.stop = pos → ok x.kind)

theorem lexFrom_swap (hb : Bounded scan) {ok : τ → Prop} {v v' : List α} (hsw : Swap scan ok v v')
    {prev : Option α} {pos : ℕ} {r : List α}
    (hseam : SeamAt ok (pos + r.length) (lexFrom scan prev pos 0 (r ++ v))) :
    ∃ xs, (∀ x ∈ xs, x.stop ≤ pos + r.length) ∧
      lexFrom scan prev pos 0 (r ++ v) =
        xs ++ lexFrom scan (lastOf prev r) (pos + r.length) 0 v ∧
      lexFrom scan prev pos 0 (r ++ v') =
        xs ++ lexFrom scan (lastOf prev r) (pos + r.length) 0 v' := by
  induction hl : r.length using Nat.strong_induction_on generalizing prev pos r with
  | _ l ih =>
    subst hl
    cases r with
    | nil => exact ⟨[], by simp⟩
    | cons c cs =>
      obtain ⟨hnone, hsome⟩ := hsw prev (c :: cs) (by simp)
      cases hs : scan prev ((c :: cs) ++ v) with
      | none =>
        have hs' := hnone hs
        rw [List.cons_append] at hs hs'
        have hlen : pos + (c :: cs).length = pos + 1 + cs.length := by
          rw [List.length_cons]
          omega
        rw [List.cons_append, List.cons_append, lexFrom_pass hs, lexFrom_pass hs', hlen]
        rw [List.cons_append, lexFrom_pass hs, hlen] at hseam
        exact ih cs.length (by simp) hseam rfl
      | some x =>
        obtain ⟨t, n⟩ := x
        obtain ⟨hpos, hle⟩ := hb _ _ _ _ hs
        rw [lexFrom_step hb hs] at hseam ⊢
        obtain ⟨hside, hok⟩ := hseam _ List.mem_cons_self
        have hn : n ≤ (c :: cs).length := by
          simp only [List.length_cons] at hside hle ⊢
          omega
        have hs' := hsome t n hs hn fun he => hok (by simp [he])
        have hlen : pos + (c :: cs).length = pos + n + ((c :: cs).drop n).length := by
          rw [List.length_drop]
          omega
        rw [lexFrom_step hb hs', List.take_append_of_le_length hn, List.drop_append_of_le_length hn,
          List.take_append_of_le_length hn, List.drop_append_of_le_length hn, hlen]
        rw [List.take_append_of_le_length hn, List.drop_append_of_le_length hn, hlen] at hseam
        obtain ⟨xs, h1, h2, h3⟩ := ih _ (by rw [List.length_drop]; simp only [List.length_cons]; omega)
          (fun x hx => hseam x (List.mem_cons_of_mem _ hx)) rfl
        have hlast : lastOf (lastOf prev ((c :: cs).take n)) ((c :: cs).drop n) =
            lastOf prev (c :: cs) := by
          rw [← lastOf_append, List.take_append_drop]
        rw [hlast] at h2 h3
        refine ⟨⟨t, pos, pos + n⟩ :: xs, ?_, by rw [h2]; rfl, by rw [h3]; rfl⟩
        intro x hx
        rcases List.mem_cons.mp hx with rfl | hx
        · exact Nat.le_add_right _ _
        · exact h1 x hx

theorem Swap.refl (ok : τ → Prop) (v : List α) : Swap scan ok v v := fun _ _ _ =>
  ⟨fun h => h, fun _ _ h _ _ => h⟩

/-- A stretch whose ends no lexeme goes over has the lexemes it has by itself. -/
theorem lexFrom_slice (hb : Bounded scan) {prev : Option α} {pos : ℕ} {u w v : List α}
    (hcut : Swap scan (fun _ => True) v [])
    (hu : SeamAt (fun _ => True) (pos + u.length) (lexFrom scan prev pos 0 (u ++ w ++ v)))
    (hw : SeamAt (fun _ => True) (pos + (u ++ w).length) (lexFrom scan prev pos 0 (u ++ w ++ v))) :
    ∃ xs ys, (∀ x ∈ xs, x.stop ≤ pos + u.length) ∧ (∀ y ∈ ys, pos + (u ++ w).length ≤ y.start) ∧
      lexFrom scan prev pos 0 (u ++ w ++ v) =
        xs ++ lexFrom scan (lastOf prev u) (pos + u.length) 0 w ++ ys := by
  obtain ⟨zs, -, hall, hfront⟩ := lexFrom_swap hb hcut hw
  rw [List.append_nil, lexFrom, List.append_nil] at hfront
  have hu' : SeamAt (fun _ => True) (pos + u.length) (lexFrom scan prev pos 0 (u ++ w)) := by
    rw [hall, ← hfront] at hu
    exact fun x hx => hu x (List.mem_append_left _ hx)
  obtain ⟨xs, hxs, hsplit, -⟩ := lexFrom_swap hb (Swap.refl _ w) hu'
  refine ⟨xs, lexFrom scan (lastOf prev (u ++ w)) (pos + (u ++ w).length) 0 v, hxs,
    fun y hy => start_ge hy, ?_⟩
  rw [hall, ← hfront, hsplit]

end Swap

/-- Induction over the stretches between separators. -/
@[elab_as_elim]
theorem sep_induct {p : τ → Bool} {motive : List τ → Prop}
    (last : ∀ seg, (∀ x ∈ seg, p x = false) → motive seg)
    (sep : ∀ seg x rest, (∀ y ∈ seg, p y = false) → p x = true → motive rest →
      motive (seg ++ x :: rest)) (l : List τ) : motive l := by
  induction hl : l.length using Nat.strong_induction_on generalizing l with
  | _ n ih =>
    subst hl
    by_cases h : ∀ x ∈ l, p x = false
    · exact last l h
    · obtain ⟨x, hx⟩ : ∃ x, l.find? p = some x := by
        rw [← Option.isSome_iff_exists, List.find?_isSome]
        simpa using h
      obtain ⟨hp, seg, rest, rfl, hseg⟩ := List.find?_eq_some_iff_append.mp hx
      refine sep seg x rest (fun y hy => by simpa using hseg y hy) hp (ih _ ?_ rest rfl)
      simp only [List.length_append, List.length_cons]
      omega

end DearSql.Lexing
