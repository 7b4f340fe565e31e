import DearSql.Annotations
import DearSql.MysqlPlans
import DearSql.TokenScan

/-! Lines of a MySQL plan that are broken at a space: what `parseMysqlTree` keeps of the node. -/
namespace DearSql.Explain
open Strikes Trees

section Trimmed

def trimmed (t : Text) : Text := (t.reverse.dropWhile (· = ' ')).reverse

variable {s t : Text}

theorem trimmed_append_spaces (t : Text) : ∃ n, t = trimmed t ++ List.replicate n ' ' := by
  refine ⟨(t.reverse.takeWhile (· = ' ')).length, ?_⟩
  have hspaces : t.reverse.takeWhile (· = ' ') =
      List.replicate (t.reverse.takeWhile (· = ' ')).length ' ' :=
    List.eq_replicate_length.mpr fun c hc => by simpa using List.mem_takeWhile_imp hc
  calc t = t.reverse.reverse := t.reverse_reverse.symm
    _ = (t.reverse.takeWhile (· = ' ') ++ t.reverse.dropWhile (· = ' ')).reverse := by
      rw [List.takeWhile_append_dropWhile]
    _ = trimmed t ++ (t.reverse.takeWhile (· = ' ')).reverse := List.reverse_append
    _ = _ := by rw [hspaces, List.reverse_replicate, List.length_replicate]

theorem getLast?_trimmed (t : Text) : (trimmed t).getLast? ≠ some ' ' := by
  rw [trimmed, List.getLast?_reverse]
  intro h
  have := List.head?_dropWhile_not (fun c : Char => decide (c = ' ')) t.reverse
  rw [h] at this
  simp at this

theorem trimmed_eq_self : trimmed t = t ↔ t.getLast? ≠ some ' ' := by
  refine ⟨fun h => h ▸ getLast?_trimmed t, fun h => ?_⟩
  obtain ⟨n, hn⟩ := trimmed_append_spaces t
  cases n with
  | zero => simpa using hn.symm
  | succ n =>
    rw [hn, List.replicate_succ', ← List.append_assoc, List.getLast?_concat] at h
    exact absurd rfl h

end Trimmed

section Operation

def withoutCost (t : Text) : Text := regex_remove costRe 0 t

def withoutActual (t : Text) : Text := regex_remove actualRe 0 t

def withoutNever (t : Text) : Text := regex_remove neverRe 0 t

/-- What the parser leaves of the text of a line. -/
def plain (t : Text) : Text := withoutNever (withoutActual (withoutCost t))

/-- No annotation that the parser strikes out of the line ends behind the break. -/
structure AnnotatedBefore (before after : Text) : Prop where
  cost : (annotations costRe).Within (before ++ ' ' :: after) before.length
  actual : (annotations actualRe).Within (withoutCost before ++ ' ' :: after)
    (withoutCost before).length
  never : (annotations neverRe).Within (withoutActual (withoutCost before) ++ ' ' :: after)
    (withoutActual (withoutCost before)).length

/-- Neither the line nor what is left before the break ends in a space. -/
structure BreaksCleanly (before after : Text) : Prop extends AnnotatedBefore before after where
  blank : (plain before).getLast? ≠ some ' '
  ends : after.getLast? ≠ some ' '

variable {before after : Text}

theorem struckBy_withoutCost : (annotations costRe).StruckBy withoutCost :=
  struckBy_regex_remove costRe_annotates

theorem struckBy_withoutActual : (annotations actualRe).StruckBy withoutActual :=
  struckBy_regex_remove actualRe_annotates

theorem struckBy_withoutNever : (annotations neverRe).StruckBy withoutNever :=
  struckBy_regex_remove neverRe_annotates

theorem AnnotatedBefore.plain_append (h : AnnotatedBefore before after) :
    plain (before ++ ' ' :: after) = plain before ++ ' ' :: after := by
  rw [plain, struck_append struckBy_withoutCost h.cost, struck_append struckBy_withoutActual h.actual,
    struck_append struckBy_withoutNever h.never, plain]

theorem annotations_short {ps qs : List Piece} {y s t : Text} :
    (annotations ps).Short y s t ↔ (annotations qs).Short y s t := Iff.rfl

/-- Where an annotation ends behind the break, less is left of what is behind it. -/
theorem plain_short (h : ¬AnnotatedBefore before after) :
    (annotations costRe).Short (' ' :: after) (plain before) (plain (before ++ ' ' :: after)) := by
  have hactual : ∀ {s t}, (annotations costRe).Short (' ' :: after) s t →
      (annotations costRe).Short (' ' :: after) (withoutActual s) (withoutActual t) :=
    Brackets.Short.struck struckBy_withoutActual rfl rfl
  have hnever : ∀ {s t}, (annotations costRe).Short (' ' :: after) s t →
      (annotations costRe).Short (' ' :: after) (withoutNever s) (withoutNever t) :=
    Brackets.Short.struck struckBy_withoutNever rfl rfl
  by_cases hcost : (annotations costRe).Within (before ++ ' ' :: after) before.length
  · rw [plain, plain, struck_append struckBy_withoutCost hcost]
    by_cases hcosts : (annotations actualRe).Within (withoutCost before ++ ' ' :: after)
        (withoutCost before).length
    · rw [struck_append struckBy_withoutActual hcosts]
      exact annotations_short.mp
        (struck_short struckBy_withoutNever fun hactuals => h ⟨hcost, hcosts, hactuals⟩)
    · exact hnever (annotations_short.mp (struck_short struckBy_withoutActual hcosts))
  · exact hnever (hactual (struck_short struckBy_withoutCost hcost))

/-- Of a text that is short, the trimmed one has not all that is behind the break. -/
theorem trimmed_ne_of_short {ps : List Piece} {s t : Text} {c : Char} (hc : c ≠ ' ')
    (h : (annotations ps).Short (' ' :: c :: after) s t) :
    trimmed t ≠ trimmed s ++ ' ' :: c :: after := by
  obtain ⟨z, v, y', rfl, rfl, -, hlt, hend⟩ := h
  intro heq
  obtain ⟨n, hn⟩ := trimmed_append_spaces (z ++ v)
  obtain ⟨m, hm⟩ := trimmed_append_spaces (z ++ y')
  have hlen := congrArg List.length hm
  rw [heq] at hm hlen
  simp only [List.length_append, List.length_cons, List.length_replicate] at hlen hlt hend
  generalize trimmed (z ++ v) = front at *
  -- the common front goes past the trimmed text, so only spaces are behind it
  obtain ⟨w, rfl, hw⟩ : ∃ w, z = front ++ w ∧ List.replicate n ' ' = w ++ v := by
    rcases List.append_eq_append_iff.mp hn with ⟨w, hw, hv⟩ | ⟨w, hw, hv⟩
    · have := congrArg List.length hw
      rw [List.length_append] at this
      omega
    · exact ⟨w, hw, hv⟩
  have hspaces : ∀ x ∈ w ++ v, x = ' ' := by
    rw [← hw]
    exact fun x hx => List.eq_of_mem_replicate hx
  have hopening : (annotations ps).opening ∉ v := fun hmem =>
    absurd (hspaces _ (List.mem_append_right w hmem)) (by decide : '(' ≠ ' ')
  have htwo : y'.length + 2 ≤ after.length + 2 := hend.resolve_left hopening
  rw [List.append_assoc, List.append_assoc] at hm
  have hbehind := List.append_cancel_left hm
  rw [List.length_append] at hlen
  rcases w with _ | ⟨a, _ | ⟨b, w⟩⟩
  · simp only [List.length_nil] at hlen
    omega
  · simp only [List.length_cons, List.length_nil] at hlen
    omega
  · have hb : b = c := (List.cons.inj (List.cons.inj hbehind).2).1
    exact hc (hb ▸ hspaces b (by simp))

/-- The operation is the one of the line where the line breaks cleanly, and only there. -/
theorem operation_kept_iff {c : Char} (hc : c ≠ ' ') :
    trimmed (plain (before ++ ' ' :: c :: after)) = trimmed (plain before) ++ ' ' :: c :: after ↔
      BreaksCleanly before (c :: after) := by
  constructor
  · intro h
    have hbefore : AnnotatedBefore before (c :: after) := by
      by_contra hnot
      exact trimmed_ne_of_short hc (plain_short hnot) h
    have hends : (c :: after).getLast? ≠ some ' ' := by
      have := getLast?_trimmed (plain (before ++ ' ' :: c :: after))
      rw [h, List.getLast?_append] at this
      simpa using this
    have hlast : (plain before ++ ' ' :: c :: after).getLast? ≠ some ' ' := by
      rw [List.getLast?_append_cons, List.getLast?_cons_cons]
      exact hends
    rw [hbefore.plain_append, trimmed_eq_self.mpr hlast] at h
    exact ⟨hbefore, trimmed_eq_self.mp (List.append_cancel_right h).symm, hends⟩
  · intro h
    have hlast : (plain before ++ ' ' :: c :: after).getLast? ≠ some ' ' := by
      rw [List.getLast?_append_cons, List.getLast?_cons_cons]
      exact h.ends
    rw [h.plain_append, trimmed_eq_self.mpr hlast, trimmed_eq_self.mpr h.blank]

end Operation

section Node

variable {D : Type} [Zero D] [Mul D] {lib : Lib D} {before after t : Text} {n : PlanNode D}

def PlanNode.continued (n : PlanNode D) (s : Text) : PlanNode D :=
  { n with operation := n.operation ++ s }

omit [Zero D] [Mul D] in
theorem AnnotatedBefore.costOf (h : AnnotatedBefore before after) :
    costOf lib (before ++ ' ' :: after) = costOf lib before := by
  rw [Explain.costOf, regex_search_append costRe_annotates h.cost, Explain.costOf]

/-- The actual times are searched for in the whole line, and an annotation that ends there behind the
break does so where the costs have been struck out. -/
theorem AnnotatedBefore.actualOf (h : AnnotatedBefore before after) :
    actualOf lib (before ++ ' ' :: after) = actualOf lib before := by
  have hactual : (annotations actualRe).Within (before ++ ' ' :: after) before.length :=
    within_of_struck struckBy_withoutCost rfl h.actual
  have hnever : (annotations neverRe).Within (before ++ ' ' :: after) before.length :=
    within_of_struck struckBy_withoutCost rfl (within_of_struck struckBy_withoutActual rfl h.never)
  rw [Explain.actualOf, regex_search_append actualRe_annotates hactual,
    regex_search_append neverRe_annotates hnever, Explain.actualOf]

theorem mysqlNode_ok : mysqlNode lib t = .ok n ↔ ∃ c a, costOf lib t = .ok c ∧
    actualOf lib t = .ok a ∧ n = {
      operation := trimmed (plain t)
      cost := c.1
      estimatedRows := c.2
      actualRows := a.1
      loops := a.2.1
      totalTimeMs := a.2.2 } := by
  rw [mysqlNode]
  cases hc : costOf lib t with
  | error e => simp [Bind.bind, Except.bind]
  | ok c =>
    cases ha : actualOf lib t with
    | error e => simp [Bind.bind, Except.bind]
    | ok a =>
      simp [Bind.bind, Except.bind, Pure.pure, Except.pure, trimmed, plain, withoutCost,
        withoutActual, withoutNever, eq_comm]

/-- A broken line gives the node of the line where it breaks cleanly, and only there. -/
theorem node_kept_iff (hne : after ≠ []) (hhead : after.head? ≠ some ' ')
    (h : mysqlNode lib (before ++ ' ' :: after) = .ok n) :
    (∃ n', mysqlNode lib before = .ok n' ∧ n'.continued (' ' :: after) = n) ↔
      BreaksCleanly before after := by
  obtain ⟨c, after, rfl⟩ := List.exists_cons_of_ne_nil hne
  have hc : c ≠ ' ' := fun h => hhead (by rw [h]; rfl)
  rw [← operation_kept_iff hc]
  obtain ⟨cost, actual, hcost, hactual, rfl⟩ := mysqlNode_ok.mp h
  constructor
  · rintro ⟨n', hn', hkept⟩
    obtain ⟨cost', actual', -, -, rfl⟩ := mysqlNode_ok.mp hn'
    exact (congrArg PlanNode.operation hkept).symm
  · intro hkept
    have hclean := (operation_kept_iff hc).mp hkept
    rw [hclean.costOf] at hcost
    rw [hclean.actualOf] at hactual
    refine ⟨_, mysqlNode_ok.mpr ⟨cost, actual, hcost, hactual, rfl⟩, ?_⟩
    rw [PlanNode.continued, hkept]

end Node

section Run

variable {D : Type} {lines : List Text} {flat flat' : List (ℕ × PlanNode D)} {line : Text}

def continuation (line : Text) : Text :=
  if line.dropWhile (· = ' ') = [] then [] else ' ' :: line.dropWhile (· = ' ')

theorem PlanNode.continued_nil (n : PlanNode D) : n.continued [] = n := by
  cases n
  rw [continued, List.append_nil]

theorem PlanNode.continued_continued (n : PlanNode D) (s t : Text) :
    (n.continued s).continued t = n.continued (s ++ t) := by
  rw [continued, continued, continued, List.append_assoc]

theorem PlanNode.continued_inj {n m : PlanNode D} {s : Text} (h : n.continued s = m.continued s) :
    n = m := by
  cases n
  cases m
  simp_all [continued]

theorem continueLast_append (line : Text) (flat : List (ℕ × PlanNode D)) (d : ℕ) (n : PlanNode D) :
    continueLast (flat ++ [(d, n)]) line = flat ++ [(d, n.continued (continuation line))] := by
  rw [continueLast, List.getLast?_concat]
  dsimp only
  rw [continuation]
  split_ifs
  · rw [n.continued_nil]
  · rw [List.dropLast_concat]
    rfl

variable [Zero D] [Mul D] {lib : Lib D}

theorem mysqlLine_continues (h : find "-> ".toList line = none) (flat : List (ℕ × PlanNode D))
    (d : ℕ) (n : PlanNode D) : mysqlLine lib (flat ++ [(d, n)]) line =
      .ok (flat ++ [(d, n.continued (continuation line))]) := by
  rw [mysqlLine, h]
  exact congrArg Except.ok (continueLast_append line flat d n)

/-- The lines after a node continue it or stand behind it, whatever it holds. -/
theorem foldlM_after (lib : Lib D) (lines : List Text) :
    (∃ e, ∀ flat d n, lines.foldlM (mysqlLine lib) (flat ++ [(d, n)]) = .error e) ∨
      ∃ s behind, ∀ flat d n, lines.foldlM (mysqlLine lib) (flat ++ [(d, n)]) =
        .ok (flat ++ (d, n.continued s) :: behind) := by
  induction lines with
  | nil =>
    refine .inr ⟨[], [], fun flat d n => ?_⟩
    rw [n.continued_nil]
    rfl
  | cons line lines ih =>
    cases hfind : find "-> ".toList line with
    | none =>
      rcases ih with ⟨e, ih⟩ | ⟨s, behind, ih⟩
      · refine .inl ⟨e, fun flat d n => ?_⟩
        rw [List.foldlM_cons, mysqlLine_continues hfind]
        exact ih flat d _
      · refine .inr ⟨continuation line ++ s, behind, fun flat d n => ?_⟩
        rw [List.foldlM_cons, mysqlLine_continues hfind, ← n.continued_continued]
        exact ih flat d _
    | some arrow =>
      cases hnode : mysqlNode lib (line.drop (arrow + 3)) with
      | error e =>
        refine .inl ⟨e, fun flat d n => ?_⟩
        rw [List.foldlM_cons, mysqlLine_arrow hfind, hnode]
        rfl
      | ok m =>
        have hstep : ∀ flat d n, (line :: lines).foldlM (mysqlLine lib) (flat ++ [(d, n)]) =
            lines.foldlM (mysqlLine lib) ((flat ++ [(d, n)]) ++ [(arrow, m)]) := by
          intro flat d n
          rw [List.foldlM_cons, mysqlLine_arrow hfind, hnode]
          rfl
        rcases ih with ⟨e, ih⟩ | ⟨s, behind, ih⟩
        · exact .inl ⟨e, fun flat d n => (hstep flat d n).trans (ih _ arrow m)⟩
        · refine .inr ⟨[], (arrow, m.continued s) :: behind, fun flat d n => ?_⟩
          rw [hstep, ih, n.continued_nil, List.append_assoc]
          rfl

theorem mysqlLine_children (hflat : ∀ e ∈ flat, e.2.children = [])
    (h : mysqlLine lib flat line = .ok flat') : ∀ e ∈ flat', e.2.children = [] := by
  cases hfind : find "-> ".toList line with
  | none =>
    rw [mysqlLine, hfind] at h
    obtain rfl := Except.ok.inj h
    rcases List.eq_nil_or_concat' flat with rfl | ⟨flat, ⟨d, n⟩, rfl⟩
    · exact hflat
    · rw [continueLast_append]
      rw [List.forall_mem_append] at hflat ⊢
      exact ⟨hflat.1, by simpa [PlanNode.continued] using hflat.2⟩
  | some arrow =>
    rw [mysqlLine_arrow hfind] at h
    obtain ⟨n, hnode, h⟩ := bind_eq_ok h
    obtain rfl := Except.ok.inj h
    rw [List.forall_mem_append]
    exact ⟨hflat, by simpa using mysqlNode_children hnode⟩

theorem foldlM_children (hflat : ∀ e ∈ flat, e.2.children = [])
    (h : lines.foldlM (mysqlLine lib) flat = .ok flat') : ∀ e ∈ flat', e.2.children = [] := by
  induction lines generalizing flat with
  | nil =>
    cases h
    exact hflat
  | cons line lines ih =>
    rw [List.foldlM_cons] at h
    obtain ⟨next, hline, h⟩ := bind_eq_ok h
    exact ih (mysqlLine_children hflat hline) h

end Run

section Texts

variable {front back x : Text}

theorem getlines_append (x y : Text) :
    getlines (x ++ '\n' :: y) = x.splitOn '\n' ++ getlines y := by
  rw [getlines, getlines, List.splitOn_append_cons_self]
  have hne := List.splitOn_ne_nil '\n' y
  rw [List.getLast?_append_of_ne_nil _ hne, List.dropLast_append_of_ne_nil hne]
  split_ifs <;> rfl

theorem getlines_line (hne : x ≠ []) (h : '\n' ∉ x) : getlines x = [x] := by
  rw [getlines, List.splitOn_eq_singleton h]
  simp [hne]

theorem getlines_front (h : ∀ c ∈ front.getLast?, c = '\n') :
    ∃ pre, ∀ y, getlines (front ++ y) = pre ++ getlines y := by
  rcases List.eq_nil_or_concat' front with rfl | ⟨x, c, rfl⟩
  · exact ⟨[], fun y => rfl⟩
  · obtain rfl := h c (by simp)
    refine ⟨x.splitOn '\n', fun y => ?_⟩
    rw [List.append_assoc, List.singleton_append, getlines_append]

theorem getlines_back (h : ∀ c ∈ back.head?, c = '\n') :
    ∃ post, ∀ x, x ≠ [] → '\n' ∉ x → getlines (x ++ back) = x :: post := by
  cases back with
  | nil => exact ⟨[], fun x hne hx => by rw [List.append_nil, getlines_line hne hx]⟩
  | cons c y =>
    obtain rfl := h c (by simp)
    refine ⟨getlines y, fun x hne hx => ?_⟩
    rw [getlines_append, List.splitOn_eq_singleton hx, List.singleton_append]

end Texts

section Breaks

/-- A space between two other characters in the line of a node, with no arrow behind it. -/
structure Break where
  front : Text
  margin : Text
  before : Text
  after : Text
  back : Text
  front_ends : ∀ c ∈ front.getLast?, c = '\n'
  one_line : '\n' ∉ margin ++ before ++ after
  back_starts : ∀ c ∈ back.head?, c = '\n'
  arrow : find "-> ".toList (margin ++ "-> ".toList) = some margin.length
  no_arrow : find "-> ".toList after = none
  before_ne : before ≠ []
  before_last : before.getLast? ≠ some ' '
  after_ne : after ≠ []
  after_head : after.head? ≠ some ' '

namespace Break
variable (b : Break)

def text : Text :=
  b.front ++ (b.margin ++ "-> ".toList ++ (b.before ++ ' ' :: b.after) ++ b.back)

/-- The text with a line break and `spaces` spaces for the space. -/
def broken (spaces : ℕ) : Text :=
  b.front ++ (b.margin ++ "-> ".toList ++ b.before ++
    '\n' :: (List.replicate spaces ' ' ++ b.after ++ b.back))

theorem find_spaces {t : Text} (h : find "-> ".toList t = none) (spaces : ℕ) :
    find "-> ".toList (List.replicate spaces ' ' ++ t) = none := by
  induction spaces with
  | zero => exact h
  | succ spaces ih =>
    rw [List.replicate_succ, List.cons_append, find, ih, if_neg (by simp)]
    rfl

theorem continuation_after (spaces : ℕ) :
    continuation (List.replicate spaces ' ' ++ b.after) = ' ' :: b.after := by
  have hdrop : (List.replicate spaces ' ' ++ b.after).dropWhile (· = ' ') = b.after := by
    rw [List.dropWhile_append_of_pos fun c hc => by simpa using List.eq_of_mem_replicate hc]
    cases hafter : b.after with
    | nil => rfl
    | cons c s =>
      have hc := b.after_head
      rw [hafter] at hc
      rw [List.dropWhile_cons_of_neg (by simpa using hc)]
  rw [continuation, hdrop, if_neg b.after_ne]

/-- The lines of the two texts. -/
theorem getlines_text (spaces : ℕ) : ∃ pre post,
    getlines b.text = pre ++ (b.margin ++ "-> ".toList ++ (b.before ++ ' ' :: b.after)) :: post ∧
    getlines (b.broken spaces) = pre ++ (b.margin ++ "-> ".toList ++ b.before) ::
      (List.replicate spaces ' ' ++ b.after) :: post := by
  obtain ⟨pre, hpre⟩ := getlines_front b.front_ends
  obtain ⟨post, hpost⟩ := getlines_back b.back_starts
  have hline := b.one_line
  simp only [List.mem_append, not_or] at hline
  obtain ⟨⟨hmargin, hbefore⟩, hafter⟩ := hline
  have harrow : '\n' ∉ "-> ".toList := by decide
  refine ⟨pre, post, ?_, ?_⟩
  · rw [text, hpre, hpost _ (by simp)]
    simp only [List.mem_append, List.mem_cons, not_or]
    exact ⟨⟨hmargin, harrow⟩, hbefore, by decide, hafter⟩
  · rw [broken, hpre, getlines_append, List.splitOn_eq_singleton, hpost _ (by simp [b.after_ne])]
    · rfl
    · simp only [List.mem_append, List.mem_replicate, not_or]
      exact ⟨fun h => absurd h.2 (by decide), hafter⟩
    · simp only [List.mem_append, not_or]
      exact ⟨⟨hmargin, harrow⟩, hbefore⟩

end Break
end Breaks

section Plans

variable {D : Type} {entries entries' : List (ℕ × PlanNode D)}

/-- The only child of the root, or the root. -/
def shownRoot (root : PlanNode D) : PlanNode D :=
  match root.children with
  | [child] => child
  | _ => root

theorem shownRoot_add (children : List (PlanNode D)) :
    shownRoot (queryRoot.add children) = dropRoot children :=
  dropRoot_eq children

theorem dropRoot_inj {cs cs' : List (PlanNode D)} (hlen : cs.length = cs'.length)
    (h : dropRoot cs = dropRoot cs') : cs = cs' := by
  match cs, cs' with
  | [], [] => rfl
  | [c], [c'] => exact congrArg (fun c => [c]) h
  | c₁ :: c₂ :: cs, c₁' :: c₂' :: cs' => exact congrArg PlanNode.children h

/-- The tree tells the entries, once their columns are known. -/
theorem entries_of_tree (hcolumns : entries.map Prod.fst = entries'.map Prod.fst)
    (hentries : ∀ e ∈ entries, e.2.children = []) (hentries' : ∀ e ∈ entries', e.2.children = [])
    (h : shownRoot (treeOf entries queryRoot) = shownRoot (treeOf entries' queryRoot)) :
    entries = entries' := by
  have hlen : entries.length = entries'.length := by
    simpa using congrArg List.length hcolumns
  have hcolumn : columnAt entries = columnAt entries' := by
    funext i
    rw [columnAt, hcolumns, columnAt]
  rw [treeOf_entries hentries, treeOf_entries hentries', shownRoot_add, shownRoot_add, ← hcolumn,
    ← hlen] at h
  have hnodes := eq_of_toPlans_eq (nodeAt_children hentries) (nodeAt_children hentries')
    (dropRoot_inj (by rw [toPlans_eq, toPlans_eq, List.length_map, List.length_map]) h)
  rw [preorders_outline] at hnodes
  rw [← entries_eq entries, ← entries_eq entries', ← hlen, ← hcolumn, List.map_inj_left]
  exact fun i hi => by rw [hnodes i hi]

variable [Zero D] [Mul D] {lib : Lib D} {analyzed : Bool}

theorem parseMysqlTree_eq_some {r : StatementResult} {plan : Plan D} :
    parseMysqlTree lib r analyzed = .ok (some plan) ↔
      ∃ entries, (getlines (firstColumn r)).foldlM (mysqlLine lib) [] = .ok entries ∧
        entries ≠ [] ∧ plan =
          { root := shownRoot (treeOf entries queryRoot), analyzed, raw := firstColumn r } := by
  rw [parseMysqlTree]
  cases (getlines (firstColumn r)).foldlM (mysqlLine lib) [] with
  | error e => simp [Bind.bind, Except.bind]
  | ok entries =>
    cases entries with
    | nil => simp [Bind.bind, Except.bind, Pure.pure, Except.pure]
    | cons e entries =>
      have hpure : ∀ p : Plan D, (.ok (some p) : Except Thrown _) = .ok (some plan) ↔ plan = p :=
        fun p => ⟨fun h => by cases h; rfl, fun h => h ▸ rfl⟩
      simp only [Except.ok.injEq, exists_eq_left', ne_eq, reduceCtorEq, not_false_eq_true, true_and]
      exact hpure _

theorem foldlM_node {margin : Text} (h : find "-> ".toList (margin ++ "-> ".toList) = some margin.length)
    (t : Text) (lines : List Text) (flat : List (ℕ × PlanNode D)) :
    ((margin ++ "-> ".toList ++ t) :: lines).foldlM (mysqlLine lib) flat =
      (mysqlNode lib t).bind fun n => lines.foldlM (mysqlLine lib) (flat ++ [(margin.length, n)]) := by
  have hfind : find "-> ".toList (margin ++ "-> ".toList ++ t) = some margin.length :=
    (find_append t (by simp)).mpr h
  have hdrop : (margin ++ "-> ".toList ++ t).drop (margin.length + 3) = t := by
    rw [List.drop_left' (by simp)]
  rw [List.foldlM_cons, mysqlLine_arrow hfind, hdrop]
  cases mysqlNode lib t <;> rfl

theorem foldlM_broken (b : Break) (spaces : ℕ) (lines : List Text) (flat : List (ℕ × PlanNode D)) :
    ((b.margin ++ "-> ".toList ++ b.before) :: (List.replicate spaces ' ' ++ b.after) ::
      lines).foldlM (mysqlLine lib) flat =
        (mysqlNode lib b.before).bind fun n => lines.foldlM (mysqlLine lib)
          (flat ++ [(b.margin.length, n.continued (' ' :: b.after))]) := by
  rw [foldlM_node b.arrow]
  congr 1
  funext n
  rw [List.foldlM_cons, mysqlLine_continues (Break.find_spaces b.no_arrow spaces),
    b.continuation_after]
  rfl

/-- A plan whose line is broken at a space has the same tree where the line breaks cleanly, and only
there. -/
theorem broken_line_kept_iff (b : Break) (spaces : ℕ) {r r' : StatementResult} {plan : Plan D}
    (hr : firstColumn r = b.text) (hr' : firstColumn r' = b.broken spaces)
    (hplan : parseMysqlTree lib r analyzed = .ok (some plan)) :
    (∃ plan', parseMysqlTree lib r' analyzed = .ok (some plan') ∧ plan'.root = plan.root) ↔
      BreaksCleanly b.before b.after := by
  obtain ⟨pre, post, htext, hbroken⟩ := b.getlines_text spaces
  obtain ⟨entries, hfold, hne, rfl⟩ := parseMysqlTree_eq_some.mp hplan
  have hentries := foldlM_children (by simp) hfold
  rw [hr, htext, List.foldlM_append] at hfold
  obtain ⟨flat, hpre, hfold⟩ := bind_eq_ok hfold
  rw [foldlM_node b.arrow] at hfold
  obtain ⟨n, hn, hfold⟩ := bind_eq_ok hfold
  have hfold' : (getlines (firstColumn r')).foldlM (mysqlLine lib) [] =
      (mysqlNode lib b.before).bind fun n => post.foldlM (mysqlLine lib)
        (flat ++ [(b.margin.length, n.continued (' ' :: b.after))]) := by
    rw [hr', hbroken, List.foldlM_append, hpre]
    exact foldlM_broken b spaces post flat
  rcases foldlM_after lib post with ⟨e, hafter⟩ | ⟨s, behind, hafter⟩
  · rw [hafter] at hfold
    cases hfold
  rw [hafter] at hfold
  obtain rfl := Except.ok.inj hfold
  rw [← node_kept_iff b.after_ne b.after_head hn]
  constructor
  · rintro ⟨plan', hplan', hroot⟩
    obtain ⟨entries', hentries', -, rfl⟩ := parseMysqlTree_eq_some.mp hplan'
    have hchildren := foldlM_children (by simp) hentries'
    rw [hfold'] at hentries'
    obtain ⟨n', hn', hentries'⟩ := bind_eq_ok hentries'
    rw [hafter] at hentries'
    obtain rfl := Except.ok.inj hentries'
    have heq := entries_of_tree (by simp) hchildren hentries hroot
    have hnode := congrArg Prod.snd (List.cons.inj (List.append_cancel_left heq)).1
    exact ⟨n', hn', PlanNode.continued_inj hnode⟩
  · rintro ⟨n', hn', rfl⟩
    refine ⟨_, parseMysqlTree_eq_some.mpr ⟨_, ?_, hne, rfl⟩, rfl⟩
    rw [hfold', hn']
    exact hafter flat b.margin.length _

/-- A result with one cell. -/
def cellResult (text : Text) : StatementResult where
  columnNames := ["EXPLAIN".toList]
  tableData := [[text]]

def scanBreak : Break where
  front := "-> j\n".toList
  margin := "    ".toList
  before := "Table scan".toList
  after := "on t".toList
  back := "\n    -> b".toList
  front_ends := by simp
  one_line := by decide
  back_starts := by simp
  arrow := by decide
  no_arrow := by decide
  before_ne := by decide
  before_last := by decide
  after_ne := by decide
  after_head := by decide

theorem scanBreak_kept : ∃ plan plan', parseMysqlTree exactLib (cellResult scanBreak.text) false =
    .ok (some plan) ∧ parseMysqlTree exactLib (cellResult (scanBreak.broken 6)) false =
      .ok (some plan') ∧ plan'.root = plan.root := by
  have hclosing : ∀ ps, (annotations ps).closing ∉ ' ' :: scanBreak.after := fun ps => by
    change ')' ∉ ' ' :: scanBreak.after
    decide
  have hclean : BreaksCleanly scanBreak.before scanBreak.after :=
    ⟨⟨within_of_no_closing (hclosing _), within_of_no_closing (hclosing _),
      within_of_no_closing (hclosing _)⟩, by decide, by decide⟩
  obtain ⟨plan, hplan⟩ : ∃ plan, parseMysqlTree exactLib (cellResult scanBreak.text) false =
      .ok (some plan) := ⟨_, rfl⟩
  have htext : firstColumn (cellResult scanBreak.text) = scanBreak.text := by decide
  have hbroken : firstColumn (cellResult (scanBreak.broken 6)) = scanBreak.broken 6 := by
    decide
  obtain ⟨plan', hplan', hroot⟩ := (broken_line_kept_iff scanBreak 6 htext hbroken hplan).mpr hclean
  exact ⟨plan, plan', hplan, hplan', hroot⟩

/-- A space in the group of the costs. -/
def costBreak : Break where
  front := []
  margin := []
  before := "Table scan on t  (cost=1".toList
  after := "rows=2)".toList
  back := []
  front_ends := by simp
  one_line := by decide
  back_starts := by simp
  arrow := by decide
  no_arrow := by decide
  before_ne := by decide
  before_last := by decide
  after_ne := by decide
  after_head := by decide

theorem costBreak_lost : ∃ plan plan', parseMysqlTree exactLib (cellResult costBreak.text) false =
    .ok (some plan) ∧ parseMysqlTree exactLib (cellResult (costBreak.broken 4)) false =
      .ok (some plan') ∧ plan.root.operation = "Table scan on t".toList ∧
      plan'.root.operation = "Table scan on t  (cost=1 rows=2)".toList ∧
      plan.root.cost = some 1 ∧ plan.root.estimatedRows = some 2 ∧
      plan'.root.cost = none ∧ plan'.root.estimatedRows = none := by
  refine ⟨_, _, rfl, rfl, ?_⟩
  decide +kernel

end Plans
end DearSql.Explain
