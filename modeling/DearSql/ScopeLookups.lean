import DearSql.GroupTree
import DearSql.Keywords

/-! The three lookups of a reference by its name: the deepest of the visible ones, the first one in
scope order and the one of the own group first. They find the declaration of the innermost scope. -/
namespace DearSql
open Lexing Loops Best

section Depths

variable {toks : List Sym} {b : Brackets} {g h : ℤ} {l : List ℤ}

/-- How many groups of the chain are around `h`. -/
def depthIn (l : List ℤ) (h : ℤ) : ℕ := l.length - 1 - l.idxOf h

theorem depthIn_split {above rest : List ℤ} (hl : l = above ++ h :: rest) (hh : h ∉ above) :
    depthIn l h = rest.length := by
  rw [depthIn, hl, List.idxOf_append_of_notMem hh, List.idxOf_cons_self, List.length_append,
    List.length_cons]
  omega

theorem depthIn_decreasing (hl : l.Nodup) :
    l.Pairwise fun h k => (depthIn l k : ℤ) < depthIn l h := by
  refine List.pairwise_iff_getElem.mpr fun i j hi hj hij => ?_
  rw [depthIn, depthIn, hl.idxOf_getElem i hi, hl.idxOf_getElem j hj]
  omega

variable (hb : buildGroups toks = some b)
include hb

theorem chain_nodup (hg : g < b.groups.length) (hc : Chain b.groups g l) : l.Nodup := by
  have h0 : 0 ≤ g := by
    cases hc with
    | root => exact le_rfl
    | step hpos => exact hpos.le
  obtain ⟨x, -, hx⟩ := at?_isSome h0 hg
  obtain ⟨m, hm, hstack⟩ := chain_of_group hb hx
  rw [hc.unique hm, ← hstack]
  exact (opened_sorted _).imp fun hlt => (ne_of_lt hlt).symm

theorem depthOf_chain (hg : g < b.groups.length) (hc : Chain b.groups g l) :
    b.depthOf g = some ((l.length : ℤ) - 1) := by
  obtain ⟨d, hd, -⟩ := b.depthOf_yields (wf_of_buildGroups hb).1 hg
  rw [hd, Option.some_inj]
  refine loop_post (fun s : ℤ × ℤ => ∃ m, Chain b.groups s.1 m ∧ s.2 + (m.length : ℤ) = l.length)
    (fun d => d = (l.length : ℤ) - 1) (fun s s' hs hnext => ?_) (fun s d hs hdone => ?_)
    ⟨l, hc, by simp⟩ hd
  · obtain ⟨m, hm, hlen⟩ := hs
    unfold Brackets.depthTurn at hnext
    split_ifs at hnext with hpos
    · obtain ⟨y, hy, hturn⟩ := Option.map_eq_some_iff.mp hnext
      obtain rfl := Turn.next.inj hturn
      generalize hk : s.1 = k at hm hpos hy
      cases hm with
      | root => exact absurd hpos (lt_irrefl 0)
      | step _ hy' rest =>
        obtain rfl := Option.some_inj.mp (hy.symm.trans hy')
        refine ⟨_, rest, ?_⟩
        rw [← hlen, List.length_cons]
        push_cast
        ring
    · cases hnext
  · obtain ⟨m, hm, hlen⟩ := hs
    unfold Brackets.depthTurn at hdone
    split_ifs at hdone with hpos
    · obtain ⟨y, -, hturn⟩ := Option.map_eq_some_iff.mp hdone
      cases hturn
    · obtain rfl := Turn.done.inj (Option.some_inj.mp hdone)
      generalize hk : s.1 = k at hm hpos
      cases hm with
      | root =>
        simp only [List.length_singleton] at hlen
        omega
      | step hpos' => exact absurd hpos' hpos

theorem depthOf_mem (hg : g < b.groups.length) (hc : Chain b.groups g l) (hh : h ∈ l) :
    b.depthOf h = some (depthIn l h : ℤ) := by
  have hnodup := chain_nodup hb hg hc
  obtain ⟨above, rest, rfl⟩ := List.append_of_mem hh
  have habove : h ∉ above := fun hin =>
    (List.nodup_append.mp hnodup).2.2 h hin h List.mem_cons_self rfl
  have hrest : Chain b.groups h (h :: rest) := hc.suffix
  have hlt : h < b.groups.length := by
    cases hrest with
    | root => exact_mod_cast List.length_pos_iff.mpr (wf_of_buildGroups hb).1.groups_ne
    | step _ hx => exact (at?_bounds hx).2.1
  rw [depthIn_split rfl habove, depthOf_chain hb hlt hrest, List.length_cons]
  push_cast
  rw [add_sub_cancel_right]

theorem isAncestorOrSelf_eq (hg : g < b.groups.length) (hc : Chain b.groups g l) :
    b.isAncestorOrSelf h g = some (decide (h ∈ l)) := by
  obtain ⟨r, hr, -⟩ := b.isAncestorOrSelf_yields (wf_of_buildGroups hb).1 h hg
  have hiff := @isAncestorOrSelf_iff _ _ g h l hb hg hc
  rw [hr, Option.some_inj] at hiff ⊢
  cases r with
  | true => exact (decide_eq_true (hiff.mp rfl)).symm
  | false => exact (decide_eq_false fun hin => Bool.false_ne_true (hiff.mpr hin)).symm

end Depths

namespace Analyzer

variable {toks : List Sym} {a : Analyzer} {g : ℤ} {name : Text} {chain : List ℤ}

/-- What the scopes from the innermost out declare under a name. -/
def nearest (a : Analyzer) (chain : List ℤ) (name : Text) : Option RelationRef :=
  chain.findSome? fun h => a.refs.find? fun r => r.group = h && ieq r.name name

/-- How deep the scope of a reference is. -/
def refDepth (chain : List ℤ) (r : RelationRef) : ℤ := depthIn chain r.group

def declaredIn (chain : List ℤ) (r : RelationRef) : Bool := decide (r.group ∈ chain)

variable (hb : buildGroups toks = some a.toBrackets) (hg : g < a.groups.length)
  (hc : Chain a.groups g chain)
include hb hg hc

theorem findRef_eq (name : Text) : a.findRef name g = some (a.refs.foldl
    (keepBest (fun r => declaredIn chain r && ieq r.name name) (refDepth chain)) (-1, none)).2 := by
  have hturn : a.nearerTurn name g = fun best r => pure (keepBest
      (fun r => declaredIn chain r && ieq r.name name) (refDepth chain) best r) := by
    funext best r
    have hvisible := @isAncestorOrSelf_eq _ _ g r.group _ hb hg hc
    by_cases hin : r.group ∈ chain
    · have hdepth := @depthOf_mem _ _ g r.group _ hb hg hc hin
      cases hname : ieq r.name name with
      | false => simp [nearerTurn, keepBest, declaredIn, hin, hname]
      | true =>
        simp only [nearerTurn, keepBest, declaredIn, hvisible, hin, hdepth, hname, refDepth]
        rfl
    · cases hname : ieq r.name name <;>
        simp [nearerTurn, keepBest, declaredIn, hvisible, hin, hname]
  rw [findRef, hturn, List.foldlM_pure]
  rfl

theorem visibleRefs_eq : a.visibleRefs g = some ((a.refs.filter (declaredIn chain)).insertionSort
    fun x y => refDepth chain y ≤ refDepth chain x) := by
  have hturn : a.withDepth g = fun r =>
      pure (if declaredIn chain r then some (refDepth chain r, r) else none) := by
    funext r
    have hvisible := @isAncestorOrSelf_eq _ _ g r.group _ hb hg hc
    by_cases hin : r.group ∈ chain
    · simp [withDepth, declaredIn, refDepth, hvisible, hin, @depthOf_mem _ _ g r.group _ hb hg hc hin]
    · simp [withDepth, declaredIn, hvisible, hin]
  have hfound (refs : List RelationRef) :
      (refs.filterMap fun r => if declaredIn chain r then some (refDepth chain r, r) else none) =
        (refs.filter (declaredIn chain)).map fun r => (refDepth chain r, r) := by
    induction refs with
    | nil => rfl
    | cons r refs ih => cases hr : declaredIn chain r <;> simp [hr, ih]
  have hsort := List.map_insertionSort (fun x y => refDepth chain y ≤ refDepth chain x)
    (fun x y : ℤ × RelationRef => y.1 ≤ x.1) (fun r => (refDepth chain r, r))
    (a.refs.filter (declaredIn chain)) fun _ _ _ _ => Iff.rfl
  rw [visibleRefs, hturn, List.mapM_pure]
  simp only [Option.pure_def, Option.bind_eq_bind, Option.bind_some, Option.some_inj,
    List.filterMap_map, Function.id_comp, hfound, ← hsort, List.map_map]
  exact List.map_id _

theorem findRef_sorted (name : Text) : Yields (a.visibleRefs g) fun refs =>
    a.findRef name g = some (refs.find? fun r => ieq r.name name) := by
  have hbest := @isBest_foldl _ (fun r => declaredIn chain r && ieq r.name name) (refDepth chain)
    (fun _ => Int.natCast_nonneg _) a.refs
  have hsorted := isBest_insertionSort (fun r => ieq r.name name) (refDepth chain)
    (a.refs.filter (declaredIn chain))
  refine ⟨_, visibleRefs_eq hb hg hc, ?_⟩
  rw [findRef_eq hb hg hc]
  exact congrArg some (hbest.filter.unique hsorted)

theorem findRef_nearest (name : Text) : a.findRef name g = some (a.nearest chain name) := by
  have hbest := @isBest_foldl _ (fun r => declaredIn chain r && ieq r.name name) (refDepth chain)
    (fun _ => Int.natCast_nonneg _) a.refs
  have hfirst := @isBest_findSome _ (fun r => declaredIn chain r && ieq r.name name) a.refs _ _
    RelationRef.group (fun h => (depthIn chain h : ℤ)) chain
    (depthIn_decreasing (chain_nodup hb hg hc))
    fun r _ hr => of_decide_eq_true (Bool.and_eq_true_iff.mp hr).1
  have hnearest : a.nearest chain name = chain.findSome? fun h => a.refs.find? fun r =>
      r.group = h && (declaredIn chain r && ieq r.name name) := by
    refine findSome_congr fun h hh => ?_
    congr 1
    funext r
    by_cases hr : r.group = h <;> simp [hr, declaredIn, hh]
  rw [findRef_eq hb hg hc, hnearest]
  exact congrArg some (hbest.unique hfirst)

/-- The own group comes first on the chain anyway. -/
theorem findRefIn_eq (name : Text) : a.findRefIn name g = a.findRef name g := by
  have hnearest := findRef_nearest hb hg hc name
  unfold findRefIn
  cases hown : a.refs.find? fun r => r.group = g ∧ ieq r.name name with
  | none => rfl
  | some r =>
    obtain ⟨l, rfl⟩ : ∃ l, chain = g :: l := by
      cases hc with
      | root => exact ⟨[], rfl⟩
      | step _ _ rest => exact ⟨_, rfl⟩
    have hfirst : (a.refs.find? fun r => r.group = g && ieq r.name name) = some r := by
      rw [← hown]
      congr 1
      funext r
      rw [Bool.decide_and, Bool.decide_eq_true]
    rw [hnearest, nearest, List.findSome?_cons, hfirst]

omit hb hg hc in
theorem nearest_eq_none : a.nearest chain name = none ↔
    ∀ h ∈ chain, ∀ r ∈ a.refs, r.group = h → ieq r.name name = false := by
  simp [nearest, List.find?_eq_none]

end Analyzer

section Agreement

variable {toks : List Sym} {catalog : CompletionCatalog} {a : Analyzer} {g : ℤ}

/-- The lookups from a group agree on what the innermost scope around it declares. -/
theorem lookups_agree (ha : analyze catalog toks = some a) (h0 : 0 ≤ g) (hg : g < a.groups.length)
    (name : Text) : ∃ chain refs, Chain a.groups g chain ∧ a.visibleRefs g = some refs ∧
      a.findRef name g = some (refs.find? fun r => ieq r.name name) ∧
      a.findRefIn name g = a.findRef name g ∧
      a.findRef name g = some (a.nearest chain name) ∧
      (a.findRef name g = some none ↔
        ∀ h ∈ chain, ∀ r ∈ a.refs, r.group = h → ieq r.name name = false) := by
  have hb := (analyze_eq_some ha).1
  obtain ⟨x, -, hx⟩ := at?_isSome h0 hg
  obtain ⟨l, hc, -⟩ := chain_of_group hb hx
  obtain ⟨refs, hrefs, hsorted⟩ := Analyzer.findRef_sorted hb hg hc name
  have hnearest := Analyzer.findRef_nearest hb hg hc name
  refine ⟨g :: l, refs, hc, hrefs, hsorted, Analyzer.findRefIn_eq hb hg hc name, hnearest, ?_⟩
  rw [hnearest, Option.some_inj, Analyzer.nearest_eq_none]

def nestedSyms : List Sym :=
  [.word "FROM".toList, .word ['t'], .word "WHERE".toList, .punct '(', .word "FROM".toList,
    .word ['t'], .punct ')']

/-- The table `t` in the FROM list of a statement and in the one of its subquery. -/
def nestedAnalyzer : Analyzer where
  toks := nestedSyms
  groups := [⟨-1, -1, 7⟩, ⟨0, 3, 6⟩]
  groupOf_ := [0, 0, 0, 0, 1, 1, 0]
  opens_ := [-1, -1, -1, 1, -1, -1, -1]
  catalog := {}
  ctes := []
  refs := [{ name := ['t'], path := [['t']], group := 0 }, { name := ['t'], path := [['t']], group := 1 }]

theorem lookups_agree_nested : ∃ chain refs, Chain nestedAnalyzer.groups 1 chain ∧
    nestedAnalyzer.visibleRefs 1 = some refs ∧
    nestedAnalyzer.findRef ['T'] 1 = some (refs.find? fun r => ieq r.name ['T']) ∧
    nestedAnalyzer.findRefIn ['T'] 1 = nestedAnalyzer.findRef ['T'] 1 ∧
    nestedAnalyzer.findRef ['T'] 1 = some (nestedAnalyzer.nearest chain ['T']) ∧
    (nestedAnalyzer.findRef ['T'] 1 = some none ↔
      ∀ h ∈ chain, ∀ r ∈ nestedAnalyzer.refs, r.group = h → ieq r.name ['T'] = false) :=
  lookups_agree (rfl : analyze {} nestedSyms = some nestedAnalyzer) (by decide) (by decide) ['T']

end Agreement
end DearSql
