import DearSql.Items

/-! How well an item matches what is typed decides its place before anything else: a better class
of match is a tier up, and the bonuses of one position stay below a tier. -/
namespace DearSql
open Lexing Loops

section Occurrences

variable {s p : Text} {i start pos : ℕ}

theorem occurs_iff : ieq (slice s i (i + p.length)) p = true ↔ lower p <+: lower (s.drop i) := by
  have hlen : (lower p).length = p.length := List.length_map ..
  rw [ieq, decide_eq_true_eq, List.prefix_iff_eq_take, hlen, slice, Nat.add_sub_cancel_left, lower,
    lower, lower, List.map_take]
  exact eq_comm

/-- The search finds the first occurrence from where it starts. -/
theorem ifind_le (hp : p ≠ []) (hstart : start ≤ pos) (h : lower p <+: lower (s.drop pos)) :
    ∃ q ≤ pos, ifind s p start = some q := by
  have hlen : p.length ≤ s.length - pos := by
    have := h.length_le
    simpa [lower] using this
  have hpos := List.length_pos_iff.mpr hp
  have hmem : pos ∈ (List.range (s.length + 1 - p.length)).drop start := by
    rw [List.range_eq_range', List.drop_range', List.mem_range'_1]
    omega
  rw [ifind, if_neg hp]
  cases hfind : ((List.range (s.length + 1 - p.length)).drop start).find?
      fun i => ieq (slice s i (i + p.length)) p with
  | none => exact absurd (occurs_iff.mpr h) (by simpa using List.find?_eq_none.mp hfind pos hmem)
  | some q =>
    refine ⟨q, ?_, rfl⟩
    obtain ⟨-, front, back, hl, hfront⟩ := List.find?_eq_some_iff_append.mp hfind
    rw [hl] at hmem
    have hsorted : (front ++ q :: back).Pairwise (· < ·) :=
      hl ▸ List.pairwise_lt_range.sublist (List.drop_sublist _ _)
    rcases List.mem_append.mp hmem with hmem | hmem
    · have hno := hfront pos hmem
      rw [occurs_iff.mpr h] at hno
      cases hno
    · rcases List.mem_cons.mp hmem with rfl | hmem
      · exact le_rfl
      · have hback := (List.pairwise_append.mp hsorted).2.1
        exact ((List.pairwise_cons.mp hback).1 pos hmem).le

theorem isSubsequence_iff : isSubsequence s p = true ↔ (lower p).Sublist (lower s) := by
  refine ⟨isSubsequence_sublist, fun h => ?_⟩
  induction s generalizing p with
  | nil =>
    cases p with
    | nil => rfl
    | cons d p => cases h
  | cons c s ih =>
    cases p with
    | nil => rfl
    | cons d p =>
      rw [isSubsequence]
      split_ifs with hc
      · refine ih ?_
        rw [lower, lower, List.map_cons, List.map_cons, hc] at h
        exact h.of_cons_cons
      · refine ih ?_
        rw [lower, lower, List.map_cons, List.map_cons, List.sublist_cons_iff] at h
        rcases h with h | ⟨rest, he, -⟩
        · exact h
        · exact absurd (List.cons.inj he).1.symm hc

end Occurrences

section Classes

/-- The ways in which a label matches the typed text, best first. -/
inductive MatchClass
  | prefix_ | boundary | substring | subsequence
  deriving DecidableEq, Repr

def MatchClass.rank : MatchClass → ℕ
  | .prefix_ => 0
  | .boundary => 1
  | .substring => 2
  | .subsequence => 3

def MatchClass.tier (c : MatchClass) : ℤ := 4000 - 1000 * c.rank

/-- The byte starts a part of the label. -/
def StartsPart (label : Text) (pos : ℕ) : Prop :=
  ∃ before here, at? label (pos - 1) = some before ∧ at? label pos = some here ∧
    (before = '_' ∨ before = '.' ∨ before = ' ' ∨ (isupper here ∧ islower before))

def MatchClass.Holds (label pre : Text) : MatchClass → Prop
  | .prefix_ => lower pre <+: lower label
  | .boundary => ∃ pos, lower pre <+: lower (label.drop pos) ∧ StartsPart label pos
  | .substring => lower pre <:+: lower label
  | .subsequence => (lower pre).Sublist (lower label)

/-- The best class in which the label matches. -/
structure InClass (label pre : Text) (c : MatchClass) : Prop where
  holds : c.Holds label pre
  best : ∀ c' : MatchClass, c'.rank < c.rank → ¬c'.Holds label pre

theorem InClass.unique {label pre : Text} {c d : MatchClass} (hc : InClass label pre c)
    (hd : InClass label pre d) : c = d := by
  have hcd : ¬c.rank < d.rank := fun h => hd.best c h hc.holds
  have hdc : ¬d.rank < c.rank := fun h => hc.best d h hd.holds
  have : c.rank = d.rank := by omega
  cases c <;> cases d <;> first | rfl | cases this

variable {label pre : Text}

theorem holds_prefix_iff : MatchClass.prefix_.Holds label pre ↔
    pre.isPrefixOf label = true ∨ istartsWith label pre = true := by
  have hlen : (lower pre).length = pre.length := List.length_map ..
  constructor
  · intro h
    refine .inr ?_
    have hle := h.length_le
    simp only [lower, List.length_map] at hle
    rw [istartsWith, Bool.and_eq_true, decide_eq_true_eq]
    have hocc := @occurs_iff label pre 0
    rw [List.drop_zero, slice, Nat.zero_add, Nat.sub_zero, List.drop_zero] at hocc
    exact ⟨hle, hocc.mpr h⟩
  · rintro (h | h)
    · obtain ⟨rest, rfl⟩ := List.isPrefixOf_iff_prefix.mp h
      exact ⟨lower rest, by simp [lower]⟩
    · rw [istartsWith, Bool.and_eq_true] at h
      exact lower_prefix h.2

/-- The loop over the occurrences tells whether one of them starts a part of the label. -/
theorem boundaryLoop_iff (hpre : pre ≠ []) {n : ℕ} {b : Bool}
    (h : loop (boundaryTurn label pre) n (ifind label pre 0) = some b) :
    b = true ↔ MatchClass.boundary.Holds label pre := by
  constructor
  · refine loop_post (fun found => ∀ pos ∈ found, lower pre <+: lower (label.drop pos))
      (fun b => b = true → MatchClass.boundary.Holds label pre)
      (fun found found' hf hnext => ?_) (fun found b hf hdone hb => ?_)
      (fun pos hpos => lower_of_ifind hpre hpos) h
    · cases found with
      | none => cases hnext
      | some pos =>
        obtain ⟨before, -, hnext⟩ := Option.bind_eq_some_iff.mp hnext
        obtain ⟨here, -, hnext⟩ := Option.bind_eq_some_iff.mp hnext
        split_ifs at hnext
        · cases hnext
        · cases hnext
          exact fun pos hpos => lower_of_ifind hpre hpos
    · cases found with
      | none =>
        cases hdone
        cases hb
      | some pos =>
        obtain ⟨before, hbefore, hdone⟩ := Option.bind_eq_some_iff.mp hdone
        obtain ⟨here, hhere, hdone⟩ := Option.bind_eq_some_iff.mp hdone
        split_ifs at hdone with hpart
        · exact ⟨pos, hf pos rfl, before, here, hbefore, hhere, hpart⟩
        · cases hdone
  · rintro ⟨pos, hocc, before, here, hbefore, hhere, hpart⟩
    -- the search never passes an occurrence that starts a part
    refine loop_post (fun found => ∃ q ≤ pos, found = some q) (fun b => b = true)
      (fun found found' hf hnext => ?_) (fun found b hf hdone => ?_)
      (ifind_le hpre (Nat.zero_le _) hocc) h
    · obtain ⟨q, hq, rfl⟩ := hf
      obtain ⟨before', hbefore', hnext⟩ := Option.bind_eq_some_iff.mp hnext
      obtain ⟨here', hhere', hnext⟩ := Option.bind_eq_some_iff.mp hnext
      split_ifs at hnext with hno
      · cases hnext
      cases hnext
      have hne : q ≠ pos := by
        rintro rfl
        obtain rfl := Option.some_inj.mp (hbefore.symm.trans hbefore')
        obtain rfl := Option.some_inj.mp (hhere.symm.trans hhere')
        exact hno hpart
      exact ifind_le hpre (by omega) hocc
    · obtain ⟨q, hq, rfl⟩ := hf
      obtain ⟨before', hbefore', hdone⟩ := Option.bind_eq_some_iff.mp hdone
      obtain ⟨here', hhere', hdone⟩ := Option.bind_eq_some_iff.mp hdone
      split_ifs at hdone with hyes
      · cases hdone
        rfl
      · cases hdone

theorem holds_substring_iff (hpre : pre ≠ []) :
    MatchClass.substring.Holds label pre ↔ (ifind label pre 0).isSome = true := by
  constructor
  · rintro ⟨front, back, h⟩
    have hdrop : lower pre <+: lower (label.drop front.length) := by
      have hlower : lower (label.drop front.length) = (lower label).drop front.length :=
        List.map_drop
      rw [hlower, ← h, List.append_assoc, List.drop_left]
      exact List.prefix_append _ _
    obtain ⟨q, -, hq⟩ := ifind_le hpre (Nat.zero_le _) hdrop
    rw [hq]
    rfl
  · intro h
    obtain ⟨q, hq⟩ := Option.isSome_iff_exists.mp h
    refine (lower_of_ifind hpre hq).isInfix.trans ?_
    rw [lower, lower, List.map_drop]
    exact (List.drop_suffix _ _).isInfix

/-- A label that gets a score gets the tier of its class, and within the first one more where the
case agrees. -/
theorem inClass_of_tier {fuzzy : Bool} {t : ℤ} (hpre : pre ≠ [])
    (h : matchTier label pre fuzzy = some t) (h0 : 0 ≤ t) :
    ∃ c, InClass label pre c ∧ c.tier ≤ t ∧ (c = .prefix_ ∨ t = c.tier) := by
  rw [matchTier, if_neg hpre] at h
  by_cases hstarts : MatchClass.prefix_.Holds label pre
  · refine ⟨.prefix_, ⟨hstarts, fun c' hc' => absurd hc' (Nat.not_lt_zero _)⟩, ?_, .inl rfl⟩
    have ht : t = 4150 ∨ t = 4000 := by
      split_ifs at h with h1 h2
      · exact .inl (Option.some_inj.mp h).symm
      · exact .inr (Option.some_inj.mp h).symm
      · exact absurd (holds_prefix_iff.mp hstarts) (not_or.mpr ⟨h1, h2⟩)
    simp only [MatchClass.tier, MatchClass.rank]
    omega
  obtain ⟨h1, h2⟩ := not_or.mp fun hor => hstarts (holds_prefix_iff.mpr hor)
  rw [if_neg h1, if_neg h2] at h
  obtain ⟨b, hloop, rfl⟩ := Option.map_eq_some_iff.mp h
  have hboundary := boundaryLoop_iff hpre hloop
  cases b with
  | true =>
    refine ⟨.boundary, ⟨hboundary.mp rfl, fun c' hc' => ?_⟩, le_rfl, .inr rfl⟩
    cases c' with
    | prefix_ => exact hstarts
    | _ => simp [MatchClass.rank] at hc'
  | false =>
    have hno : ¬MatchClass.boundary.Holds label pre := fun hb => by simpa using hboundary.mpr hb
    simp only [Bool.false_eq_true, if_false] at h0 ⊢
    rw [fuzzyTier] at h0 ⊢
    by_cases hf : (!fuzzy) = true
    · rw [if_pos hf] at h0
      omega
    rw [if_neg hf] at h0 ⊢
    by_cases hsub : 2 ≤ pre.length ∧ (ifind label pre 0).isSome
    · rw [if_pos hsub]
      refine ⟨.substring, ⟨(holds_substring_iff hpre).mpr hsub.2, fun c' hc' => ?_⟩, le_rfl, .inr rfl⟩
      cases c' with
      | prefix_ => exact hstarts
      | boundary => exact hno
      | _ => simp [MatchClass.rank] at hc'
    rw [if_neg hsub] at h0 ⊢
    by_cases hseq : 2 ≤ pre.length ∧ isSubsequence label pre
    · rw [if_pos hseq]
      have hnosub : ¬MatchClass.substring.Holds label pre := fun h =>
        hsub ⟨hseq.1, (holds_substring_iff hpre).mp h⟩
      refine ⟨.subsequence, ⟨isSubsequence_iff.mp hseq.2, fun c' hc' => ?_⟩, le_rfl, .inr rfl⟩
      cases c' with
      | prefix_ => exact hstarts
      | boundary => exact hno
      | substring => exact hnosub
      | subsequence => simp [MatchClass.rank] at hc'
    · rw [if_neg hseq] at h0
      omega

end Classes

section Ranks

/-- An item whose label matches in a better class comes before. -/
def BetterFirst (pre : Text) (items : List CompletionItem) : Prop :=
  ∀ (i j : ℕ) (a b : CompletionItem) (c d : MatchClass), items[i]? = some a → items[j]? = some b →
    InClass a.label pre c → InClass b.label pre d → c.rank < d.rank → i < j

theorem score_of_add {e : Emitter} {o : Offer} {it : CompletionItem}
    (h : e.add o = some (some it)) :
    ∃ t, matchTier it.label e.prefix_ o.fuzzy = some t ∧ 0 ≤ t ∧ it.score = t + o.bonus := by
  obtain ⟨t, ht, h0, rfl⟩ := item_of_add h
  exact ⟨t, ht, h0, rfl⟩

/-- The bonuses of two items never outweigh their classes. -/
theorem score_lt {e : Emitter} {catalog : CompletionCatalog} {o p : Offer} {a b : CompletionItem}
    {c d : MatchClass} (hpre : e.prefix_ ≠ []) (ho : o.Proper catalog) (hp : p.Proper catalog)
    (ha : e.add o = some (some a)) (hb : e.add p = some (some b))
    (hc : InClass a.label e.prefix_ c) (hd : InClass b.label e.prefix_ d) (hcd : c.rank < d.rank) :
    b.score < a.score := by
  obtain ⟨ta, hta, hta0, hsa⟩ := score_of_add ha
  obtain ⟨tb, htb, htb0, hsb⟩ := score_of_add hb
  obtain ⟨c', hc', hle, -⟩ := inClass_of_tier hpre hta hta0
  obtain ⟨d', hd', -, heq⟩ := inClass_of_tier hpre htb htb0
  obtain rfl := hc.unique hc'
  obtain rfl := hd.unique hd'
  have htb : tb = d.tier := heq.resolve_left fun h => by
    rw [h] at hcd
    exact absurd hcd (Nat.not_lt_zero _)
  have ho0 := ho.nonneg
  have hp1 := hp.lt
  simp only [MatchClass.tier] at hle htb
  omega

/-- Whatever the context adds, a better match comes first. -/
theorem better_match_first (sql : Text) (cursor : ℕ) (catalog : CompletionCatalog)
    (type : DatabaseType) :
    ∃ typed offers r, offersAt sql (min cursor sql.length) catalog type = some (typed, offers) ∧
      complete sql cursor catalog type = some r ∧ BetterFirst typed.prefix_ r.items := by
  obtain ⟨⟨typed, offers⟩, hoffers, -⟩ := offersAt_yields sql (min cursor sql.length) catalog type
  obtain ⟨items, hitems, -⟩ := Emitter.take_yields (typed.emitter type) offers
  obtain ⟨added, hadded, rfl⟩ := Option.map_eq_some_iff.mp hitems
  refine ⟨typed, offers,
    ⟨firstOfKey [] (sortItems added), typed.replaceStart, typed.replaceEnd⟩, hoffers,
    by simp [complete, hoffers, hitems, sortItems], fun i j a b c d ha hb hc hd hcd => ?_⟩
  by_cases hpre : typed.prefix_ = []
  · -- where nothing is typed every label is in the first class
    have hall : MatchClass.prefix_.Holds b.label typed.prefix_ := by
      rw [hpre]
      exact List.nil_prefix
    exact absurd hall (hd.best .prefix_ (lt_of_le_of_lt (Nat.zero_le _) hcd))
  have hmem : ∀ it ∈ firstOfKey [] (sortItems added),
      ∃ o ∈ offers, (typed.emitter type).add o = some (some it) := fun it hit =>
    mem_items hadded (mem_sortItems.mp ((firstOfKey_sublist _ _).subset hit))
  obtain ⟨o, ho, hadda⟩ := hmem a (List.mem_of_getElem? ha)
  obtain ⟨p, hp, haddb⟩ := hmem b (List.mem_of_getElem? hb)
  have hlt := score_lt hpre (proper_offersAt hoffers o ho) (proper_offersAt hoffers p hp) hadda haddb
    hc hd hcd
  have hsorted := (sorted_sortItems added).sublist (firstOfKey_sublist [] _)
  rw [List.pairwise_iff_getElem] at hsorted
  obtain ⟨hi, rfl⟩ := List.getElem?_eq_some_iff.mp ha
  obtain ⟨hj, rfl⟩ := List.getElem?_eq_some_iff.mp hb
  by_contra hle
  rcases (not_lt.mp hle).lt_or_eq with hji | rfl
  · exact absurd hlt (not_lt.mpr (score_le_of_sortKey (itemLess_false.mp (hsorted j i hj hi hji))))
  · exact absurd hlt (lt_irrefl _)

end Ranks
end DearSql
