import DearSql.Best
import DearSql.Explain
import DearSql.Strikes

/-! The patterns of `parseMysqlTree` as groups in parentheses: where they match, what
`std::regex_search` finds and what `std::regex_replace` leaves. -/
namespace DearSql.Explain
open Strikes

section Patterns

def noBracket (c : Char) : Bool := c ≠ '(' && c ≠ ')'

/-- The rest of a pattern after its parenthesis: the closing one ends it, and there is no other. -/
def closes : List Piece → Bool
  | [] => false
  | [.lit t] => t.getLast? = some ')' && t.dropLast.all noBracket
  | .lit t :: ps => t.all noBracket && closes ps
  | .num :: ps => closes ps
  | .dotsNum :: ps => closes ps

/-- A pattern that begins with its opening parenthesis. -/
def Annotates (ps : List Piece) : Prop :=
  ∃ t rest, ps = .lit ('(' :: t) :: rest ∧ closes (.lit t :: rest) = true

theorem costRe_annotates : Annotates costRe := ⟨_, _, rfl, by decide⟩

theorem actualRe_annotates : Annotates actualRe := ⟨_, _, rfl, by decide⟩

theorem neverRe_annotates : Annotates neverRe := ⟨_, _, rfl, by decide⟩

end Patterns

section Matches

variable {ps : List Piece} {s w rest t : Text} {r : List (Option Text) × Text}

theorem matchHere_nil (s : Text) : matchHere [] s = some ([], s) := rfl

theorem matchHere_lit (t : Text) (ps : List Piece) (s : Text) : matchHere (.lit t :: ps) s =
    if t.isPrefixOf s then matchHere ps (s.drop t.length) else none := rfl

theorem matchHere_num (ps : List Piece) (s : Text) : matchHere (.num :: ps) s =
    (greedy s).findSome? fun n =>
      (matchHere ps (s.drop n)).map fun r => (some (s.take n) :: r.1, r.2) := rfl

theorem matchHere_dotsNum (ps : List Piece) (s : Text) : matchHere (.dotsNum :: ps) s =
    (if "..".toList.isPrefixOf s then
        (greedy (s.drop 2)).findSome? fun n =>
          (matchHere ps (s.drop (2 + n))).map fun r => (some ((s.drop 2).take n) :: r.1, r.2)
      else none).or ((matchHere ps s).map fun r => (none :: r.1, r.2)) := rfl

theorem regex_search_some {c : Char} (h : matchHere ps (c :: s) = some r) :
    regex_search ps (c :: s) = some r.1 := by
  rw [regex_search, h]

theorem regex_search_none {c : Char} (h : matchHere ps (c :: s) = none) :
    regex_search ps (c :: s) = regex_search ps s := by
  rw [regex_search, h]

theorem regex_remove_nil (ps : List Piece) (n : ℕ) : regex_remove ps n [] = [] := by
  cases n <;> rfl

theorem regex_remove_some {c : Char} (h : matchHere ps (c :: s) = some r) :
    regex_remove ps 0 (c :: s) = regex_remove ps (s.length - r.2.length) s := by
  rw [regex_remove, h]

theorem regex_remove_none {c : Char} (h : matchHere ps (c :: s) = none) :
    regex_remove ps 0 (c :: s) = c :: regex_remove ps 0 s := by
  rw [regex_remove, h]

theorem inClass_opening {c : Char} (h : inClass c = true) : c ≠ '(' ∧ c ≠ ')' := by
  constructor <;>
  · rintro rfl
    exact absurd h (by decide)

theorem isPrefixOf_closing (ht : t.all noBracket = true) (w rest : Text) :
    t.isPrefixOf (w ++ ')' :: rest) = t.isPrefixOf w := by
  induction t generalizing w with
  | nil => simp
  | cons c t ih =>
    rw [List.all_cons, Bool.and_eq_true] at ht
    cases w with
    | nil =>
      have hc : c ≠ ')' := by
        rintro rfl
        exact absurd ht.1 (by decide)
      simp [List.isPrefixOf, hc]
    | cons d w => simp only [List.cons_append, List.isPrefixOf, ih ht.2]

theorem greedy_closing (w rest : Text) : greedy (w ++ ')' :: rest) = greedy w := by
  rw [greedy, greedy]
  congr 4
  induction w with
  | nil => rw [List.nil_append, List.takeWhile_cons_of_neg (by decide)]; rfl
  | cons c w ih => simp only [List.cons_append, List.takeWhile_cons, ih]

theorem mem_greedy {n : ℕ} : n ∈ greedy s ↔ 0 < n ∧ n ≤ (s.takeWhile inClass).length := by
  simp only [greedy, List.mem_map, List.mem_reverse, List.mem_range]
  constructor
  · rintro ⟨m, hm, rfl⟩
    omega
  · rintro ⟨hpos, hle⟩
    exact ⟨n - 1, by omega, by omega⟩

theorem length_of_mem_greedy {n : ℕ} (h : n ∈ greedy s) : n ≤ s.length :=
  (mem_greedy.mp h).2.trans (List.takeWhile_sublist _).length_le

theorem closing_of_last {t : Text} (h : (t.getLast? = some ')' && t.dropLast.all noBracket) = true) :
    ∃ u, t = u ++ [')'] ∧ u.all noBracket = true := by
  rw [Bool.and_eq_true, decide_eq_true_eq] at h
  obtain ⟨u, rfl⟩ := List.getLast?_eq_some_iff.mp h.1
  exact ⟨u, rfl, by simpa using h.2⟩

theorem noBracket_closing {u : Text} (h : u.all noBracket = true) : ')' ∉ u := fun hmem =>
  absurd (List.all_eq_true.mp h _ hmem) (by decide)

theorem noBracket_opening {u : Text} (h : u.all noBracket = true) : '(' ∉ u := fun hmem =>
  absurd (List.all_eq_true.mp h _ hmem) (by decide)

theorem exists_of_findSome {β γ : Type} {l : List β} {f : β → Option γ}
    (h : (l.findSome? f).isSome = true) : ∃ b ∈ l, (f b).isSome = true := by
  obtain ⟨c, hc⟩ := Option.isSome_iff_exists.mp h
  obtain ⟨b, hb, hbc⟩ := List.exists_of_findSome?_eq_some hc
  exact ⟨b, hb, by rw [hbc]; rfl⟩

/-- The characters that a number takes are no brackets. -/
theorem no_opening_greedy {n : ℕ} (hn : n ∈ greedy w) (hrest : '(' ∉ w.drop n) : '(' ∉ w := by
  intro hmem
  rw [← List.take_append_drop n w, List.mem_append] at hmem
  refine hmem.elim (fun htake => ?_) hrest
  have hfront : w.take n <+: w.takeWhile inClass :=
    List.prefix_of_prefix_length_le (List.take_prefix n w) (List.takeWhile_prefix _)
      ((List.length_take_le n w).trans (mem_greedy.mp hn).2)
  exact (inClass_opening (List.mem_takeWhile_imp (hfront.subset htake))).1 rfl

/-- What a match takes ends at the first closing parenthesis. -/
theorem matchHere_closing (hps : closes ps = true) (hw : ')' ∉ w) (rest : Text) :
    matchHere ps (w ++ ')' :: rest) =
      (matchHere ps (w ++ [')'])).map fun r => (r.1, rest) := by
  induction ps using closes.induct generalizing w with
  | case1 => simp [closes] at hps
  | case2 t =>
    obtain ⟨u, rfl, hu⟩ := closing_of_last hps
    have hfront : ∀ rest, (u ++ [')']).isPrefixOf (w ++ ')' :: rest) = true ↔ u = w := by
      intro rest
      rw [List.isPrefixOf_iff_prefix]
      constructor
      · rintro ⟨q, hq⟩
        rw [List.append_assoc, List.singleton_append] at hq
        exact (append_closing_inj (noBracket_closing hu) hw hq).1
      · rintro rfl
        exact ⟨rest, by simp⟩
    simp only [matchHere_lit, hfront]
    split_ifs with h
    · subst h
      simp [matchHere_nil]
    · rfl
  | case3 t ps hne ih =>
    rw [closes, Bool.and_eq_true] at hps
    · rw [matchHere_lit, matchHere_lit, isPrefixOf_closing hps.1, isPrefixOf_closing hps.1]
      split_ifs with h
      · obtain ⟨w', rfl⟩ := List.isPrefixOf_iff_prefix.mp h
        simp only [List.mem_append, not_or] at hw
        rw [List.append_assoc, List.append_assoc, List.drop_left, List.drop_left]
        exact ih hps.2 hw.2
      · rfl
    · exact hne
  | case4 ps ih =>
    rw [closes] at hps
    rw [matchHere_num, matchHere_num, greedy_closing, greedy_closing, List.map_findSome?]
    refine Best.findSome_congr fun n hn => ?_
    have hlen := length_of_mem_greedy hn
    rw [List.drop_append_of_le_length hlen, List.take_append_of_le_length hlen,
      ih hps fun h => hw (List.mem_of_mem_drop h)]
    simp only [Function.comp, List.drop_append_of_le_length hlen,
      List.take_append_of_le_length hlen, Option.map_map]
    rfl
  | case5 ps ih =>
    rw [closes] at hps
    have hdots : "..".toList.all noBracket = true := by decide
    rw [matchHere_dotsNum, matchHere_dotsNum, isPrefixOf_closing hdots, isPrefixOf_closing hdots,
      ih hps hw]
    rw [Option.map_or, Option.map_map, Option.map_map]
    congr 1
    split_ifs with h
    · obtain ⟨w', rfl⟩ := List.isPrefixOf_iff_prefix.mp h
      have hdrop : ∀ t : Text, ("..".toList ++ t).drop 2 = t := fun _ => rfl
      have hdrop' : ∀ (n : ℕ) (t : Text), ("..".toList ++ t).drop (2 + n) = t.drop n := fun n t => by
        rw [Nat.add_comm]
        rfl
      rw [List.append_assoc, List.append_assoc, hdrop, hdrop, greedy_closing, greedy_closing,
        List.map_findSome?]
      refine Best.findSome_congr fun n hn => ?_
      have hlen := length_of_mem_greedy hn
      have hw' : ')' ∉ w' := fun h => hw (List.mem_append_right _ h)
      rw [hdrop', List.drop_append_of_le_length hlen, List.take_append_of_le_length hlen,
        ih hps fun h => hw' (List.mem_of_mem_drop h)]
      simp only [-String.reduceToList, Function.comp, hdrop', List.drop_append_of_le_length hlen,
        List.take_append_of_le_length hlen, Option.map_map]
      rfl
    · rfl

theorem matchHere_no_closing (hps : closes ps = true) (hs : ')' ∉ s) : matchHere ps s = none := by
  induction ps using closes.induct generalizing s with
  | case1 => simp [closes] at hps
  | case2 t =>
    obtain ⟨u, rfl, -⟩ := closing_of_last hps
    rw [matchHere_lit, if_neg]
    intro h
    obtain ⟨q, rfl⟩ := List.isPrefixOf_iff_prefix.mp h
    exact hs (by simp)
  | case3 t ps hne ih =>
    rw [closes, Bool.and_eq_true] at hps
    · rw [matchHere_lit, ih hps.2 fun h => hs (List.mem_of_mem_drop h), ite_self]
    · exact hne
  | case4 ps ih =>
    rw [closes] at hps
    rw [matchHere_num, List.findSome?_eq_none_iff]
    intro n _
    rw [ih hps fun h => hs (List.mem_of_mem_drop h), Option.map_none]
  | case5 ps ih =>
    rw [closes] at hps
    rw [matchHere_dotsNum, ih hps hs]
    split_ifs
    · rw [List.findSome?_eq_none_iff.mpr, Option.map_none, Option.or_none]
      intro n _
      rw [ih hps fun h => hs (List.mem_of_mem_drop h), Option.map_none]
    · rfl

/-- A match takes no opening parenthesis. -/
theorem matchHere_no_opening (hps : closes ps = true) (hw : ')' ∉ w)
    (h : (matchHere ps (w ++ [')'])).isSome = true) : '(' ∉ w := by
  induction ps using closes.induct generalizing w with
  | case1 => simp [closes] at hps
  | case2 t =>
    obtain ⟨u, rfl, hu⟩ := closing_of_last hps
    rw [matchHere_lit] at h
    split_ifs at h with hfront
    · obtain ⟨q, hq⟩ := List.isPrefixOf_iff_prefix.mp hfront
      rw [List.append_assoc, List.singleton_append] at hq
      obtain ⟨rfl, -⟩ := append_closing_inj (noBracket_closing hu) hw hq
      exact noBracket_opening hu
    · simp at h
  | case3 t ps hne ih =>
    rw [closes, Bool.and_eq_true] at hps
    · rw [matchHere_lit, isPrefixOf_closing hps.1] at h
      split_ifs at h with hfront
      · obtain ⟨w', rfl⟩ := List.isPrefixOf_iff_prefix.mp hfront
        simp only [List.mem_append, not_or] at hw ⊢
        rw [List.append_assoc, List.drop_left] at h
        exact ⟨noBracket_opening hps.1, ih hps.2 hw.2 h⟩
      · simp at h
    · exact hne
  | case4 ps ih =>
    rw [closes] at hps
    rw [matchHere_num, greedy_closing] at h
    obtain ⟨n, hn, hsome⟩ := exists_of_findSome h
    rw [Option.isSome_map, List.drop_append_of_le_length (length_of_mem_greedy hn)] at hsome
    exact no_opening_greedy hn (ih hps (fun h => hw (List.mem_of_mem_drop h)) hsome)
  | case5 ps ih =>
    rw [closes] at hps
    have hdots : "..".toList.all noBracket = true := by decide
    rw [matchHere_dotsNum, isPrefixOf_closing hdots, Option.isSome_or, Option.isSome_map,
      Bool.or_eq_true] at h
    rcases h with h | h
    · split_ifs at h with hfront
      · obtain ⟨w', rfl⟩ := List.isPrefixOf_iff_prefix.mp hfront
        have hdrop : ∀ t : Text, ("..".toList ++ t).drop 2 = t := fun _ => rfl
        have hdrop' : ∀ (n : ℕ) (t : Text), ("..".toList ++ t).drop (2 + n) = t.drop n :=
          fun n t => by
            rw [Nat.add_comm]
            rfl
        rw [List.append_assoc, hdrop, greedy_closing] at h
        obtain ⟨n, hn, hsome⟩ := exists_of_findSome h
        rw [Option.isSome_map, hdrop', List.drop_append_of_le_length (length_of_mem_greedy hn)] at hsome
        have hw' : ')' ∉ w' := fun h => hw (List.mem_append_right _ h)
        have hrest := no_opening_greedy hn
          (ih hps (fun h => hw' (List.mem_of_mem_drop h)) hsome)
        intro hmem
        exact (List.mem_append.mp hmem).elim (noBracket_opening hdots) hrest
      · simp at h
    · exact ih hps hw h

end Matches

section Groups

/-- What stands between parentheses where a pattern matches. -/
def annotations (ps : List Piece) : Brackets Char where
  opening := '('
  closing := ')'
  ne := by decide
  group u := '(' ∉ u ∧ ')' ∉ u ∧ (matchHere ps ('(' :: u ++ [')'])).isSome = true
  no_opening _ h := h.1
  no_closing _ h := h.2.1

theorem matchHere_opening (t : Text) (ps : List Piece) (c : Char) (s : Text) :
    matchHere (.lit ('(' :: t) :: ps) (c :: s) =
      if c = '(' then matchHere (.lit t :: ps) s else none := by
  by_cases hc : c = '('
  · simp [matchHere_lit, List.isPrefixOf, hc]
  · have hbeq : ('(' == c) = false := beq_eq_false_iff_ne.mpr (Ne.symm hc)
    simp [matchHere_lit, List.isPrefixOf, hc, hbeq]

theorem enclosed_append {ps : List Piece} (u rest : Text) :
    (annotations ps).enclosed u ++ rest = '(' :: (u ++ ')' :: rest) := by
  simp [Brackets.enclosed, annotations]

variable {ps : List Piece} (h : Annotates ps)

include h

/-- A match takes the group where it begins. -/
theorem matchHere_enclosed {u : Text} (hu : (annotations ps).group u) (rest : Text) :
    ∃ g, matchHere ps ((annotations ps).enclosed u ++ rest) = some (g, rest) ∧
      (matchHere ps ((annotations ps).enclosed u)).map Prod.fst = some g := by
  obtain ⟨-, hclosing, hsome⟩ := hu
  obtain ⟨t, tail, rfl, hps⟩ := h
  rw [List.cons_append, matchHere_opening, if_pos rfl] at hsome
  obtain ⟨r, hr⟩ := Option.isSome_iff_exists.mp hsome
  refine ⟨r.1, ?_, ?_⟩
  · rw [enclosed_append, matchHere_opening, if_pos rfl, matchHere_closing hps hclosing, hr]
    rfl
  · rw [← List.append_nil (Brackets.enclosed _ u), enclosed_append, matchHere_opening, if_pos rfl, hr]
    rfl

theorem group_of_match {s : Text} {r : List (Option Text) × Text} (hr : matchHere ps s = some r) :
    ∃ u, (annotations ps).group u ∧ s = (annotations ps).enclosed u ++ r.2 := by
  obtain ⟨t, tail, rfl, hps⟩ := h
  cases s with
  | nil => simp [matchHere_lit, List.isPrefixOf] at hr
  | cons c s =>
    rw [matchHere_opening] at hr
    split_ifs at hr with hc
    · subst hc
      by_cases hmem : ')' ∈ s
      · obtain ⟨u, rest, rfl, hu⟩ := List.eq_append_cons_of_mem hmem
        rw [matchHere_closing hps hu] at hr
        obtain ⟨r', hr', rfl⟩ := Option.map_eq_some_iff.mp hr
        refine ⟨u, ⟨matchHere_no_opening hps hu (by rw [hr']; rfl), hu, ?_⟩, ?_⟩
        · rw [List.cons_append, matchHere_opening, if_pos rfl, hr']
          rfl
        · rw [enclosed_append]
      · rw [matchHere_no_closing hps hmem] at hr
        cases hr

theorem matchHere_none {a : Char} {s : Text} (hlead : ¬(annotations ps).Leads (a :: s)) :
    matchHere ps (a :: s) = none := by
  by_contra hne
  obtain ⟨r, hr⟩ := Option.ne_none_iff_exists'.mp hne
  obtain ⟨u, hu, hs⟩ := group_of_match h hr
  exact hlead ⟨u, r.2, hu, hs⟩

omit h in
theorem regex_remove_skip (ps : List Piece) (n : ℕ) (s : Text) :
    regex_remove ps n s = regex_remove ps 0 (s.drop n) := by
  induction n generalizing s with
  | zero => rfl
  | succ n ih =>
    cases s with
    | nil => simp [regex_remove_nil]
    | cons c s => exact ih s

/-- `std::regex_replace` strikes out the groups. -/
theorem struckBy_regex_remove : (annotations ps).StruckBy (regex_remove ps 0) where
  nil := regex_remove_nil ps 0
  group u rest hu := by
    obtain ⟨g, hg, -⟩ := matchHere_enclosed h hu rest
    rw [enclosed_append] at hg ⊢
    rw [regex_remove_some hg]
    have hrest : u ++ ')' :: rest = (u ++ [')']) ++ rest := by simp
    rw [regex_remove_skip, hrest, List.length_append, Nat.add_sub_cancel, List.drop_left]
  other a l hlead := by
    exact regex_remove_none (matchHere_none h hlead)

theorem regex_search_no_group {s : Text} (hw : (annotations ps).Within s 0) :
    regex_search ps s = none := by
  induction s with
  | nil =>
    obtain ⟨t, tail, rfl, -⟩ := h
    simp [regex_search, matchHere_lit, List.isPrefixOf]
  | cons a s ih =>
    have hlead : ¬(annotations ps).Leads (a :: s) := not_leads hw
    rw [regex_search_none (matchHere_none h hlead)]
    exact ih ((within_other hlead).mp (within_mono hw (Nat.zero_le 1)))

theorem regex_search_group {u : Text} (hu : (annotations ps).group u) (s : Text) :
    regex_search ps ((annotations ps).enclosed u ++ s) =
      (matchHere ps ((annotations ps).enclosed u)).map Prod.fst := by
  obtain ⟨g, hg, hfst⟩ := matchHere_enclosed h hu s
  rw [hfst]
  rw [enclosed_append] at hg ⊢
  rw [regex_search_some hg]

theorem regex_search_other {a : Char} {s : Text} (hlead : ¬(annotations ps).Leads (a :: s)) :
    regex_search ps (a :: s) = regex_search ps s :=
  regex_search_none (matchHere_none h hlead)

/-- `std::regex_search` finds the same where no group ends in what is appended. -/
theorem regex_search_append {x y : Text} (hw : (annotations ps).Within (x ++ y) x.length) :
    regex_search ps (x ++ y) = regex_search ps x := by
  induction x using walk_induction (k := annotations ps) y with
  | nil =>
    have hnil : (annotations ps).Within [] 0 := fun p u q _ hl => by simp [Brackets.enclosed] at hl
    rw [regex_search_no_group h hnil]
    exact regex_search_no_group h hw
  | group u x hu ih => rw [List.append_assoc, regex_search_group h hu, regex_search_group h hu]
  | crossing u₁ u₂ rest hu hy =>
    have := hw [] (u₁ ++ u₂) rest hu (by rw [hy]; simp [Brackets.enclosed])
    simp [length_enclosed] at this
  | other a x hlead ih =>
    have hlead' : ¬(annotations ps).Leads (a :: x) := fun h => hlead (leads_append y h)
    rw [List.cons_append, List.length_cons, within_other hlead] at hw
    rw [List.cons_append, regex_search_other h hlead, regex_search_other h hlead', ih hw]

end Groups
end DearSql.Explain
