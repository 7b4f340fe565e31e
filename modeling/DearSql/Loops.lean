import Mathlib

/-! Loops that may fail or not end: a turn goes on with a new state or ends with a result, a
read outside a list has no value, and a loop that takes more turns than it has fuel for has no
result. -/
namespace DearSql.Loops

variable {α β σ : Type*}

/-- A read at an index that may be negative. -/
def at? (l : List α) (i : ℤ) : Option α := if i < 0 then none else l[i.toNat]?

/-- A write at an index that may be negative. -/
def put? (l : List α) (i : ℤ) (a : α) : Option (List α) :=
  if 0 ≤ i ∧ i < l.length then some (l.set i.toNat a) else none

/-- The indices from `a` up to, but not including, `b`. -/
def upTo (a b : ℤ) : List ℤ := (List.range (b - a).toNat).map fun n : ℕ => a + n

inductive Turn (σ β : Type*)
  | next (s : σ)
  | done (b : β)
  deriving DecidableEq, Repr

def loop (body : σ → Option (Turn σ β)) : ℕ → σ → Option β
  | 0, _ => none
  | n + 1, s =>
    match body s with
    | none => none
    | some (.next s') => loop body n s'
    | some (.done b) => some b

section Access

theorem at?_eq_some {l : List α} {i : ℤ} {a : α} :
    at? l i = some a ↔ 0 ≤ i ∧ l[i.toNat]? = some a := by
  rw [at?]
  split_ifs with h
  · simp only [false_iff, not_and]
    exact fun h' => absurd h' (not_le.mpr h)
  · simp [not_lt.mp h]

@[simp] theorem at?_ofNat (l : List α) (i : ℕ) : at? l (i : ℤ) = l[i]? := by
  rw [at?, if_neg (by omega), Int.toNat_natCast]

theorem at?_neg {l : List α} {i : ℤ} (h : i < 0) : at? l i = none := if_pos h

theorem at?_isSome {l : List α} {i : ℤ} (h0 : 0 ≤ i) (h : i < l.length) :
    ∃ a, a ∈ l ∧ at? l i = some a := by
  obtain ⟨k, rfl⟩ := Int.eq_ofNat_of_zero_le h0
  have hk : k < l.length := by omega
  exact ⟨l[k], List.getElem_mem hk, by rw [at?_ofNat, List.getElem?_eq_getElem hk]⟩

theorem at?_bounds {l : List α} {i : ℤ} {a : α} (h : at? l i = some a) :
    0 ≤ i ∧ i < l.length ∧ a ∈ l := by
  obtain ⟨h0, ha⟩ := at?_eq_some.mp h
  obtain ⟨hi, rfl⟩ := List.getElem?_eq_some_iff.mp ha
  exact ⟨h0, by omega, List.getElem_mem hi⟩

theorem put?_eq_some {l l' : List α} {i : ℤ} {a : α} :
    put? l i a = some l' ↔ (0 ≤ i ∧ i < l.length) ∧ l.set i.toNat a = l' := by
  rw [put?]
  split_ifs with h <;> simp [h]

end Access

section Ranges

theorem upTo_nil {a b : ℤ} (h : b ≤ a) : upTo a b = [] := by
  rw [upTo, Int.toNat_of_nonpos (by omega)]
  rfl

theorem upTo_cons {a b : ℤ} (h : a < b) : upTo a b = a :: upTo (a + 1) b := by
  obtain ⟨n, hn⟩ : ∃ n, (b - a).toNat = n + 1 := ⟨(b - a).toNat - 1, by omega⟩
  rw [upTo, upTo, hn, show (b - (a + 1)).toNat = n by omega, List.range_succ_eq_map, List.map_cons,
    List.map_map]
  congr 1
  · simp
  · apply List.map_congr_left
    intro k _
    simp only [Function.comp, Nat.succ_eq_add_one]
    push_cast
    ring

theorem mem_upTo {a b i : ℤ} : i ∈ upTo a b ↔ a ≤ i ∧ i < b := by
  rw [upTo, List.mem_map]
  constructor
  · rintro ⟨n, hn, rfl⟩
    have := List.mem_range.mp hn
    omega
  · rintro ⟨h1, h2⟩
    exact ⟨(i - a).toNat, List.mem_range.mpr (by omega), by omega⟩

end Ranges

section Yields

variable {o : Option α} {P P' : α → Prop} {Q : β → Prop}

/-- There is a result, and it has the property. -/
def Yields (o : Option α) (P : α → Prop) : Prop := ∃ a, o = some a ∧ P a

theorem yields_some {a : α} (h : P a) : Yields (some a) P := ⟨a, rfl, h⟩

theorem Yields.imp (h : Yields o P) (himp : ∀ a, P a → P' a) : Yields o P' := by
  obtain ⟨a, ha, hp⟩ := h
  exact ⟨a, ha, himp a hp⟩

theorem Yields.bind {f : α → Option β} (h : Yields o P) (hf : ∀ a, P a → Yields (f a) Q) :
    Yields (o.bind f) Q := by
  obtain ⟨a, rfl, hp⟩ := h
  exact hf a hp

theorem Yields.map {f : α → β} (h : Yields o P) (hf : ∀ a, P a → Q (f a)) :
    Yields (o.map f) Q := by
  obtain ⟨a, rfl, hp⟩ := h
  exact ⟨f a, rfl, hf a hp⟩

theorem Yields.at (l : List α) {i : ℤ} (h0 : 0 ≤ i) (h : i < l.length) :
    Yields (at? l i) fun a => at? l i = some a := by
  obtain ⟨a, -, ha⟩ := at?_isSome h0 h
  exact ⟨a, ha, ha⟩

end Yields

section Ensures

variable {o : Option α} {P P' : α → Prop} {Q : β → Prop}

/-- A result, if there is one, has the property. -/
def Ensures (o : Option α) (P : α → Prop) : Prop := ∀ a, o = some a → P a

theorem ensures_none : Ensures none P := by
  rintro a ⟨⟩

theorem ensures_some {a : α} (h : P a) : Ensures (some a) P := by
  rintro b ⟨⟩
  exact h

theorem ensures_self (o : Option α) : Ensures o fun a => o = some a := fun _ h => h

theorem Ensures.imp (h : Ensures o P) (himp : ∀ a, P a → P' a) : Ensures o P' :=
  fun a ha => himp a (h a ha)

theorem Ensures.bind {f : α → Option β} (h : Ensures o P) (hf : ∀ a, P a → Ensures (f a) Q) :
    Ensures (o.bind f) Q := by
  intro b hb
  obtain ⟨a, ha, hfa⟩ := Option.bind_eq_some_iff.mp hb
  exact hf a (h a ha) b hfa

theorem Ensures.map {f : α → β} (h : Ensures o P) (hf : ∀ a, P a → Q (f a)) :
    Ensures (o.map f) Q := by
  intro b hb
  obtain ⟨a, ha, rfl⟩ := Option.map_eq_some_iff.mp hb
  exact hf a (h a ha)

end Ensures

section Folds

universe u v

/-- A way to say a property of a result that goes through one step after the other. -/
structure Composes (R : ∀ ⦃α : Type u⦄, Option α → (α → Prop) → Prop) : Prop where
  result : ∀ {α : Type u} {a : α} {P : α → Prop}, P a → R (some a) P
  bind : ∀ {α β : Type u} {o : Option α} {f : α → Option β} {P : α → Prop} {Q : β → Prop},
    R o P → (∀ a, P a → R (f a) Q) → R (o.bind f) Q

theorem composes_yields : Composes.{u} fun _ => Yields := ⟨yields_some, Yields.bind⟩

theorem composes_ensures : Composes.{u} fun _ => Ensures := ⟨ensures_some, Ensures.bind⟩

variable {α : Type v} {β σ : Type u} {R : ∀ ⦃α : Type u⦄, Option α → (α → Prop) → Prop}
  {Q : β → Prop}

theorem Composes.foldlM (hR : Composes R) {f : σ → α → Option σ} (Inv : σ → Prop) {l : List α}
    {s : σ} (hstep : ∀ s a, a ∈ l → Inv s → R (f s a) Inv) (hs : Inv s) :
    R (l.foldlM f s) Inv := by
  induction l generalizing s with
  | nil => exact hR.result hs
  | cons a l ih =>
    rw [List.foldlM_cons]
    exact hR.bind (hstep s a List.mem_cons_self hs) fun s' hs' =>
      ih (fun s a ha => hstep s a (List.mem_cons_of_mem _ ha)) hs'

theorem Composes.mapM (hR : Composes R) {f : α → Option β} {l : List α}
    (h : ∀ a ∈ l, R (f a) Q) : R (l.mapM f) fun bs => ∀ b ∈ bs, Q b := by
  induction l with
  | nil => exact hR.result (by simp)
  | cons a l ih =>
    rw [List.mapM_cons]
    refine hR.bind (h a List.mem_cons_self) fun b hb => ?_
    refine hR.bind (ih fun a ha => h a (List.mem_cons_of_mem _ ha)) fun bs hbs => ?_
    exact hR.result (List.forall_mem_cons.mpr ⟨hb, hbs⟩)

/-- What every turn of a fold keeps holds at its end. -/
theorem foldlM_yields {f : σ → α → Option σ} (Inv : σ → Prop) {l : List α} {s : σ}
    (hstep : ∀ s a, a ∈ l → Inv s → Yields (f s a) Inv) (hs : Inv s) :
    Yields (l.foldlM f s) Inv :=
  composes_yields.foldlM Inv hstep hs

theorem mapM_yields {f : α → Option β} {l : List α} (h : ∀ a ∈ l, Yields (f a) Q) :
    Yields (l.mapM f) fun bs => ∀ b ∈ bs, Q b :=
  composes_yields.mapM h

theorem foldlM_ensures {f : σ → α → Option σ} (Inv : σ → Prop) {l : List α} {s : σ}
    (hstep : ∀ s a, a ∈ l → Inv s → Ensures (f s a) Inv) (hs : Inv s) :
    Ensures (l.foldlM f s) Inv :=
  composes_ensures.foldlM Inv hstep hs

theorem mapM_ensures {f : α → Option β} {l : List α} (h : ∀ a ∈ l, Ensures (f a) Q) :
    Ensures (l.mapM f) fun bs => ∀ b ∈ bs, Q b :=
  composes_ensures.mapM h

theorem foldlM_upTo_yields {f : σ → ℤ → Option σ} (Inv : ℤ → σ → Prop) {a b : ℤ} (hab : a ≤ b)
    {s : σ} (hstep : ∀ i s, a ≤ i → i < b → Inv i s → Yields (f s i) (Inv (i + 1)))
    (hs : Inv a s) : Yields ((upTo a b).foldlM f s) (Inv b) := by
  induction hn : (b - a).toNat generalizing a s with
  | zero =>
    obtain rfl : a = b := by omega
    rw [upTo_nil le_rfl]
    exact yields_some hs
  | succ n ih =>
    rw [upTo_cons (by omega), List.foldlM_cons]
    exact (hstep a s le_rfl (by omega) hs).bind fun s' hs' =>
      ih (by omega) (fun i s hi => hstep i s (by omega)) hs' (by omega)

/-- What every turn that has a result keeps holds of the result. -/
theorem foldlM_upTo_post {f : σ → ℤ → Option σ} (Inv : ℤ → σ → Prop) {a b : ℤ} (hab : a ≤ b)
    {s s' : σ} (hstep : ∀ i s s', a ≤ i → i < b → Inv i s → f s i = some s' → Inv (i + 1) s')
    (hs : Inv a s) (h : (upTo a b).foldlM f s = some s') : Inv b s' := by
  induction hn : (b - a).toNat generalizing a s with
  | zero =>
    obtain rfl : a = b := by omega
    rw [upTo_nil le_rfl] at h
    obtain rfl := Option.some_inj.mp h
    exact hs
  | succ n ih =>
    rw [upTo_cons (by omega), List.foldlM_cons] at h
    obtain ⟨s₁, h₁, h⟩ := Option.bind_eq_some_iff.mp h
    exact ih (by omega) (fun i s s' hi => hstep i s s' (by omega))
      (hstep a s s₁ le_rfl (by omega) hs h₁) h (by omega)

end Folds

section Rules

variable {body : σ → Option (Turn σ β)} {s s' : σ} {b : β} {n : ℕ}

theorem loop_next (h : body s = some (.next s')) : loop body (n + 1) s = loop body n s' := by
  rw [loop, h]

theorem loop_done (h : body s = some (.done b)) : loop body (n + 1) s = some b := by
  rw [loop, h]

/-- What one turn does: it ends with a result, or goes on closer to the end. -/
inductive Advances (Inv : σ → Prop) (μ : σ → ℕ) (Post : β → Prop) (s : σ) :
    Option (Turn σ β) → Prop
  | next {s' : σ} (inv : Inv s') (less : μ s' < μ s) : Advances Inv μ Post s (some (.next s'))
  | done {b : β} (post : Post b) : Advances Inv μ Post s (some (.done b))

/-- A loop whose every turn advances has a result. -/
theorem loop_total (Inv : σ → Prop) (μ : σ → ℕ) {Post : β → Prop}
    (hbody : ∀ s, Inv s → Advances Inv μ Post s (body s)) (hs : Inv s) (hn : μ s < n) :
    Yields (loop body n s) Post := by
  induction n generalizing s with
  | zero => omega
  | succ n ih =>
    have h := hbody s hs
    generalize hr : body s = r at h
    cases h with
    | next inv less =>
      rw [loop_next hr]
      exact ih inv (by omega)
    | done post => exact ⟨_, loop_done hr, post⟩

/-- What every turn keeps holds of the result. -/
theorem loop_post (Inv : σ → Prop) (Post : β → Prop)
    (hnext : ∀ s s', Inv s → body s = some (.next s') → Inv s')
    (hdone : ∀ s b, Inv s → body s = some (.done b) → Post b) (hs : Inv s)
    (h : loop body n s = some b) : Post b := by
  induction n generalizing s with
  | zero => simp [loop] at h
  | succ n ih =>
    cases hr : body s with
    | none => simp [loop, hr] at h
    | some t =>
      cases t with
      | next s' =>
        rw [loop_next hr] at h
        exact ih (hnext s s' hs hr) h
      | done b' =>
        rw [loop_done hr] at h
        cases h
        exact hdone s b hs hr

/-- The state of a turn that goes on, and the result of one that ends. -/
def Turn.Keeps (Inv : σ → Prop) (Post : β → Prop) : Turn σ β → Prop
  | .next s => Inv s
  | .done b => Post b

theorem loop_ensures (Inv : σ → Prop) {Post : β → Prop}
    (hbody : ∀ s, Inv s → Ensures (body s) (Turn.Keeps Inv Post)) (hs : Inv s) :
    Ensures (loop body n s) Post :=
  fun _ h => loop_post Inv Post (fun s _ hs ht => hbody s hs _ ht)
    (fun s _ hs ht => hbody s hs _ ht) hs h

/-- Loops whose turns are the same where they get to. -/
theorem loop_congr {other : σ → Option (Turn σ β)} (Inv : σ → Prop)
    (hturn : ∀ s, Inv s → other s = body s)
    (hnext : ∀ s s', Inv s → body s = some (.next s') → Inv s') (hs : Inv s) :
    loop other n s = loop body n s := by
  induction n generalizing s with
  | zero => rfl
  | succ n ih =>
    rw [loop, loop, hturn s hs]
    cases hr : body s with
    | none => rfl
    | some t =>
      cases t with
      | next s' => exact ih (hnext s s' hs hr)
      | done b => rfl

variable {σ' β' : Type*} {body' : σ' → Option (Turn σ' β')} {n' : ℕ}

/-- A loop whose turns go with the turns of another one ends as the other one does. -/
theorem loop_follows (R : σ → σ' → Prop) (Q : β → β' → Prop)
    (hnext : ∀ s s' t, R s s' → body s = some (.next t) →
      ∃ t', body' s' = some (.next t') ∧ R t t')
    (hdone : ∀ s s' b, R s s' → body s = some (.done b) →
      ∃ b', body' s' = some (.done b') ∧ Q b b')
    (hn : n ≤ n') {t : σ'} (hs : R s t) (h : loop body n s = some b) :
    Yields (loop body' n' t) (Q b) := by
  induction n generalizing s t n' with
  | zero => simp [loop] at h
  | succ n ih =>
    obtain ⟨n', rfl⟩ : ∃ k, n' = k + 1 := ⟨n' - 1, by omega⟩
    cases hr : body s with
    | none => simp [loop, hr] at h
    | some turn =>
      cases turn with
      | next s' =>
        obtain ⟨t', ht', hst⟩ := hnext s t s' hs hr
        rw [loop_next hr] at h
        rw [loop_next ht']
        exact ih (by omega) hst h
      | done b₀ =>
        obtain ⟨b', hb', hq⟩ := hdone s t b₀ hs hr
        rw [loop_done hr] at h
        obtain rfl := Option.some_inj.mp h
        exact ⟨b', loop_done hb', hq⟩

/-- What a turn says when the states and the results are renamed. -/
def Turn.map (f : σ → σ') (g : β → β') : Turn σ β → Turn σ' β'
  | .next s => .next (f s)
  | .done b => .done (g b)

/-- A loop under a renaming of its states. -/
theorem loop_map {f : σ → σ'} {g : β → β'}
    (hturn : ∀ s t, body s = some t → body' (f s) = some (t.map f g)) (hn : n ≤ n')
    (h : loop body n s = some b) : loop body' n' (f s) = some (g b) := by
  obtain ⟨b', hb', rfl⟩ := loop_follows (fun s t => t = f s) (fun b b' => b' = g b)
    (fun s s' t hs ht => ⟨f t, hs ▸ hturn s _ ht, rfl⟩)
    (fun s s' b hs hb => ⟨g b, hs ▸ hturn s _ hb, rfl⟩) hn rfl h
  exact hb'

end Rules
end DearSql.Loops
