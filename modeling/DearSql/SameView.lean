import DearSql.CompleteBounds

/-! Two texts that the completer sees alike at two positions: the same items, and the same
meaning of the identifier, at places that correspond. -/
namespace DearSql
open Lexing Loops

section Segment

/-- The tokens between the semicolons around an offset; `acc` holds those since the last one. -/
def segmentFrom (offset : ℕ) : List Token → List Token → List Token
  | acc, [] => acc
  | acc, t :: ts =>
    if t.kind.isSemi then if t.stop ≤ offset then segmentFrom offset [] ts else acc
    else segmentFrom offset (acc ++ [t]) ts

theorem segment_eq (offset : ℕ) {first : ℕ} (done ts : List Token) (hfirst : first ≤ done.length)
    (sp : StatementSpan) (hf : sp.firstTok = first) (hl : sp.lastTok = (done ++ ts).length) :
    ((done ++ ts).take (statementAtFrom offset done.length ts sp).lastTok).drop
      (statementAtFrom offset done.length ts sp).firstTok =
        segmentFrom offset (done.drop first) ts := by
  induction ts generalizing done first sp with
  | nil =>
    rw [statementAtFrom, segmentFrom, hf, hl, List.take_length, List.append_nil]
  | cons t ts ih =>
    have happ : done ++ t :: ts = (done ++ [t]) ++ ts := by simp
    have hlen : (done ++ [t]).length = done.length + 1 := by simp
    rw [statementAtFrom, segmentFrom]
    split_ifs with hsemi hstop
    · have h := ih (done ++ [t]) (by simp : done.length + 1 ≤ (done ++ [t]).length)
        { sp with start := t.stop, firstTok := done.length + 1 } rfl (by rw [← happ]; exact hl)
      rw [hlen, ← happ] at h
      rw [h, ← hlen, List.drop_length]
    · simp only [hf]
      rw [List.take_left]
    · have h := ih (done ++ [t]) (by rw [hlen]; omega) sp hf
        (by rw [← happ]; exact hl)
      rw [hlen, ← happ] at h
      rw [h, List.drop_append_of_le_length hfirst]

def notComment (t : Token) : Bool := t.kind.kind ≠ .comment

theorem filter_segment {p : Token → Bool} (hp : ∀ t : Token, t.kind.isSemi = true → p t = true)
    (offset : ℕ) (acc ts : List Token) :
    (segmentFrom offset acc ts).filter p = segmentFrom offset (acc.filter p) (ts.filter p) := by
  induction ts generalizing acc with
  | nil => rfl
  | cons t ts ih =>
    rw [segmentFrom]
    split_ifs with hsemi hstop
    · rw [ih, List.filter_cons_of_pos (hp t hsemi), segmentFrom, if_pos hsemi, if_pos hstop,
        List.filter_nil]
    · rw [List.filter_cons_of_pos (hp t hsemi), segmentFrom, if_pos hsemi, if_neg hstop]
    · rw [ih, List.filter_append]
      by_cases ht : p t = true
      · rw [List.filter_cons_of_pos ht, List.filter_cons_of_pos ht, segmentFrom, if_neg hsemi,
          List.filter_nil]
      · rw [List.filter_cons_of_neg ht, List.filter_cons_of_neg ht, List.filter_nil,
          List.append_nil]

/-- Comments do not matter for what belongs to a statement. -/
theorem statementTokens_eq (all : List Token) (offset length : ℕ) :
    statementTokens all offset length = segmentFrom offset [] (all.filter notComment) := by
  have hsemi : ∀ t : Token, t.kind.isSemi = true → notComment t = true := by
    intro t ht
    simp only [TokInfo.isSemi, Bool.and_eq_true, decide_eq_true_eq] at ht
    simp [notComment, ht.1]
  have h := segment_eq offset [] all (le_refl 0)
    { start := 0, stop := length, firstTok := 0, lastTok := all.length } rfl rfl
  rw [statementTokens, statementAt]
  simp only [List.nil_append, List.length_nil] at h
  rw [h, List.drop_nil]
  exact filter_segment hsemi offset [] all

/-- After a semicolon the tokens before it no longer count. -/
theorem segmentFrom_semi {offset : ℕ} {acc done rest : List Token} {t : Token}
    (hdone : ∀ u ∈ done ++ [t], u.stop ≤ offset) (ht : t.kind.isSemi = true) :
    segmentFrom offset acc (done ++ t :: rest) = segmentFrom offset [] rest := by
  induction done generalizing acc with
  | nil => rw [List.nil_append, segmentFrom, if_pos ht, if_pos (hdone t (by simp))]
  | cons u done ih =>
    have hu := hdone u (by simp)
    have hrest : ∀ w ∈ done ++ [t], w.stop ≤ offset := fun w hw => hdone w (List.mem_cons_of_mem _ hw)
    rw [List.cons_append, segmentFrom]
    split_ifs
    · exact ih hrest
    · exact ih hrest

/-- Whether the cursor is in a literal, token by token. -/
theorem insideLiteral_eq_any (cursor : ℕ) {ts : List Token}
    (h : ts.Pairwise fun x y => x.start < y.start) :
    insideLiteral cursor ts = ts.any fun t => decide (t.start < cursor) && barsCursor cursor t := by
  induction ts with
  | nil => rfl
  | cons t ts ih =>
    obtain ⟨ht, hts⟩ := List.pairwise_cons.mp h
    rw [insideLiteral, List.any_cons, ih hts]
    by_cases hc : cursor ≤ t.start
    · have hnone : (ts.any fun u => decide (u.start < cursor) && barsCursor cursor u) = false := by
        rw [List.any_eq_false]
        intro u hu
        have := ht u hu
        simp only [Bool.and_eq_true, decide_eq_true_eq, not_and]
        intro hlt
        omega
      rw [if_pos hc, hnone, decide_eq_false (by omega)]
      rfl
    · rw [if_neg hc, decide_eq_true (by omega), Bool.true_and]
      cases barsCursor cursor t <;> simp

theorem insideLiteral_tokenize (cursor : ℕ) (s : Text) (d : Dialect) :
    insideLiteral cursor (tokenize s d) =
      (tokenize s d).any fun t => decide (t.start < cursor) && barsCursor cursor t :=
  insideLiteral_eq_any cursor (starts_increasing none 0 0 s)

end Segment
section Moved

/-- Tokens that differ at most in the content of a string. -/
structure Like (t t' : TokInfo) : Prop where
  kind : t'.kind = t.kind
  closed : t'.closed = t.closed
  lineComment : t'.lineComment = t.lineComment
  text : t.kind ≠ .string → t'.text = t.text

variable {t t' : TokInfo}

theorem Like.refl (t : TokInfo) : Like t t := ⟨rfl, rfl, rfl, fun _ => rfl⟩

theorem Like.sym (h : Like t t') : t'.sym = t.sym := by
  unfold TokInfo.sym
  by_cases hs : t.kind = .string
  · rw [h.kind, hs]
  · rw [h.kind, h.text hs]

theorem Like.isSemi (h : Like t t') : t'.isSemi = t.isSemi := by
  unfold TokInfo.isSemi
  by_cases hs : t.kind = .string
  · rw [h.kind, hs]
    rfl
  · rw [h.kind, h.text hs]

/-- Two texts with a position in each, and where the places of the first are in the second. -/
structure Views where
  sql : Text
  cursor : ℕ
  sql' : Text
  cursor' : ℕ
  move : ℕ → ℕ

namespace Views

/-- The same token at its place in the second text. -/
structure Moved (v : Views) (t t' : Token) : Prop where
  like : Like t.kind t'.kind
  start : t'.start = v.move t.start
  stop : t'.stop = v.move t.stop
  start_le : t'.start ≤ v.cursor' ↔ t.start ≤ v.cursor
  le_start : v.cursor' ≤ t'.start ↔ v.cursor ≤ t.start
  stop_le : t'.stop ≤ v.cursor' ↔ t.stop ≤ v.cursor
  le_stop : v.cursor' ≤ t'.stop ↔ v.cursor ≤ t.stop
  typed : t.kind.kind = .word ∨ t.kind.kind = .quotedIdent → t.start < v.cursor →
    v.cursor ≤ t.stop ∨ t.kind.closed = false →
      slice v.sql' t'.start v.cursor' = slice v.sql t.start v.cursor

variable {v : Views}

theorem Moved.bars {t t' : Token} (h : v.Moved t t') :
    barsCursor v.cursor' t' = barsCursor v.cursor t := by
  have hlt : v.cursor' < t'.stop ↔ v.cursor < t.stop := by
    rw [← not_le, ← not_le, h.stop_le]
  unfold barsCursor
  rw [h.like.kind]
  cases t.kind.kind <;> simp only [h.like.lineComment, h.like.closed, h.le_stop, hlt]

/-- Whether a token bars the cursor from completion. -/
theorem bars_moved {ts ts' : List Token} (h : List.Forall₂ v.Moved ts ts') :
    (ts'.any fun t => decide (t.start < v.cursor') && barsCursor v.cursor' t) =
      ts.any fun t => decide (t.start < v.cursor) && barsCursor v.cursor t := by
  induction h with
  | nil => rfl
  | @cons t t' ts ts' ht _ ih =>
    have hlt : t'.start < v.cursor' ↔ t.start < v.cursor := by
      rw [← not_le, ← not_le, ht.le_start]
    rw [List.any_cons, List.any_cons, ih, ht.bars, decide_eq_decide.mpr hlt]

theorem segment_moved {ts ts' acc acc' : List Token} (hacc : List.Forall₂ v.Moved acc acc')
    (h : List.Forall₂ v.Moved ts ts') :
    List.Forall₂ v.Moved (segmentFrom v.cursor acc ts) (segmentFrom v.cursor' acc' ts') := by
  induction h generalizing acc acc' with
  | nil => exact hacc
  | cons ht _ ih =>
    rw [segmentFrom, segmentFrom, ht.like.isSemi]
    simp only [ht.stop_le]
    split_ifs
    · exact ih .nil
    · exact hacc
    · exact ih (List.rel_append hacc (.cons ht .nil))

theorem syms_moved {ts ts' : List Token} (h : List.Forall₂ v.Moved ts ts') : syms ts' = syms ts := by
  induction h with
  | nil => rfl
  | cons ht _ ih =>
    rw [syms, List.map_cons, ht.like.sym]
    exact congrArg _ ih

end Views

def Typed.move (f : ℕ → ℕ) (typed : Typed) : Typed :=
  { typed with replaceStart := f typed.replaceStart, replaceEnd := f typed.replaceEnd }

theorem slice_succ (s : Text) (b e : ℕ) : slice s (b + 1) e = (slice s b e).drop 1 := by
  rw [slice, slice, List.drop_take, List.drop_drop, Nat.sub_sub]

namespace Views

variable {v : Views}

theorem typedFrom_moved (hcursor : v.cursor' = v.move v.cursor) {ts ts' : List Token}
    (h : List.Forall₂ v.Moved ts ts') (i : ℕ) :
    typedFrom v.sql' v.cursor' i ts' = (typedFrom v.sql v.cursor i ts).move v.move := by
  induction h generalizing i with
  | nil => simp [typedFrom, Typed.move, hcursor]
  | @cons t t' ts ts' ht _ ih =>
    have hlt : v.cursor' < t'.stop ↔ v.cursor < t.stop := by
      rw [← not_le, ← not_le, ht.stop_le]
    simp only [typedFrom, ht.like.kind, ht.like.closed, ht.le_start, ht.le_stop, hlt]
    split_ifs with hstart hword hquoted
    · simp [Typed.move, hcursor]
    · have htyped := ht.typed (.inl hword.1) (by omega) (.inl hword.2)
      rw [htyped]
      simp [Typed.move, ht.start, ht.stop]
    · have htyped := ht.typed (.inr hquoted.1) (by omega) (hquoted.2.imp_left le_of_lt)
      rw [slice_succ, htyped, ← slice_succ]
      simp [Typed.move, ht.start, ht.stop]
    · exact ih (i + 1)

theorem identifierFrom_moved {ts ts' : List Token} (h : List.Forall₂ v.Moved ts ts') (i : ℕ)
    {found found' : Option (ℕ × Token)}
    (hfound : Option.Rel (fun p p' => p'.1 = p.1 ∧ v.Moved p.2 p'.2) found found') :
    Option.Rel (fun p p' => p'.1 = p.1 ∧ v.Moved p.2 p'.2) (identifierFrom v.cursor i found ts)
      (identifierFrom v.cursor' i found' ts') := by
  induction h generalizing i found found' with
  | nil => exact hfound
  | @cons t t' ts ts' ht _ ih =>
    have hlt : v.cursor' < t'.stop ↔ v.cursor < t.stop := by
      rw [← not_le, ← not_le, ht.stop_le]
    have heq : v.cursor' = t'.stop ↔ v.cursor = t.stop := by
      rw [le_antisymm_iff, le_antisymm_iff, ht.le_stop, ht.stop_le]
    simp only [identifierFrom, ht.like.kind, ht.start_le, hlt, heq]
    split_ifs
    · exact ih (i + 1) hfound
    · exact .some ⟨rfl, ht⟩
    · exact ih (i + 1) (.some ⟨rfl, ht⟩)
    · exact ih (i + 1) hfound

end Views
end Moved
section Results

variable (f : ℕ → ℕ)

def CompletionResult.move (r : CompletionResult) : CompletionResult :=
  { r with replaceStart := f r.replaceStart, replaceEnd := f r.replaceEnd }

def ResolvedIdentifier.move (out : ResolvedIdentifier) : ResolvedIdentifier :=
  { out with start := f out.start, stop := f out.stop }

/-- What is tried one after the other does not depend on the place. -/
theorem firstFound_map (g : ResolvedIdentifier → ResolvedIdentifier)
    (tries : List (Option (Option ResolvedIdentifier))) :
    firstFound (tries.map (Option.map (Option.map g))) = (firstFound tries).map (Option.map g) := by
  induction tries with
  | nil => rfl
  | cons try_ tries ih =>
    rw [List.map_cons, firstFound, firstFound]
    rcases try_ with _ | _ | out
    · rfl
    · exact ih
    · rfl

namespace Analyzer

variable (a : Analyzer) (out : ResolvedIdentifier)

theorem describeRef_move (r : RelationRef) :
    a.describeRef (out.move f) r = (a.describeRef out r).move f := by
  unfold describeRef
  cases findRelation a.catalog r.path <;> split_ifs <;> rfl

theorem relationColumn_move (path : List Text) (name : Text) :
    a.relationColumn (out.move f) path name =
      (a.relationColumn out path name).map (ResolvedIdentifier.move f) := by
  unfold relationColumn
  cases findRelation a.catalog path with
  | none => rfl
  | some rel =>
    simp only [Option.bind_eq_bind, Option.bind_some]
    cases columnIn (tableColumns rel.table) name <;> rfl

theorem refMember_move (qualifier : List Text) (name : Text) (g : ℤ) :
    a.refMember (out.move f) qualifier name g =
      (a.refMember out qualifier name g).map (Option.map (ResolvedIdentifier.move f)) := by
  unfold refMember
  rcases a.pathRef qualifier g with _ | _ | r
  · rfl
  · rfl
  · simp only [Option.bind_eq_bind, Option.bind_some, describeRef_move]
    cases a.refColumns r with
    | none => rfl
    | some cols =>
      simp only [Option.bind_some]
      cases columnIn cols name <;> rfl

theorem cteMember_move (qualifier : List Text) (name : Text) :
    a.cteMember (out.move f) qualifier name =
      (a.cteMember out qualifier name).map (Option.map (ResolvedIdentifier.move f)) := by
  unfold cteMember
  cases a.pathCte qualifier with
  | none => rfl
  | some c =>
    simp only [Option.bind_eq_bind]
    cases a.cteColumnsAt c with
    | none => rfl
    | some cols =>
      simp only [Option.bind_some]
      cases columnIn cols name <;> rfl

theorem resolveMember_move (qualifier : List Text) (name : Text) (g : ℤ) :
    a.resolveMember (out.move f) qualifier name g =
      (a.resolveMember out qualifier name g).map (Option.map (ResolvedIdentifier.move f)) := by
  unfold resolveMember
  rw [← firstFound_map]
  simp only [List.map_cons, List.map_nil, refMember_move, cteMember_move, relationColumn_move,
    Option.map_some]
  have hschema : a.schemaMember (out.move f) qualifier name =
      (a.schemaMember out qualifier name).map (ResolvedIdentifier.move f) := by
    rw [schemaMember, schemaMember, Option.map_map]
    rfl
  have hsequence : a.sequenceMember (out.move f) qualifier name =
      (a.sequenceMember out qualifier name).map (ResolvedIdentifier.move f) := by
    rw [sequenceMember, sequenceMember, Option.map_map]
    rfl
  rw [hschema, hsequence]

theorem columnOfRefs_move (name : Text) (refs : List RelationRef) :
    a.columnOfRefs (out.move f) name refs =
      (a.columnOfRefs out name refs).map (Option.map (ResolvedIdentifier.move f)) := by
  induction refs with
  | nil => rfl
  | cons r refs ih =>
    rw [columnOfRefs, columnOfRefs, describeRef_move]
    simp only [Option.bind_eq_bind]
    cases a.refColumns r with
    | none => rfl
    | some cols =>
      simp only [Option.bind_some]
      cases columnIn cols name with
      | none => exact ih
      | some c => rfl

theorem asColumn_move (name : Text) (g : ℤ) (ctx : Context) :
    a.asColumn (out.move f) name g ctx =
      (a.asColumn out name g ctx).map (Option.map (ResolvedIdentifier.move f)) := by
  unfold asColumn
  split_ifs
  · rw [relationColumn_move]
    rfl
  · simp only [Option.bind_eq_bind]
    cases a.visibleRefs g with
    | none => rfl
    | some refs => exact columnOfRefs_move f a out name refs

theorem resolveBare_move (name : Text) (g : ℤ) (isQualifier : Bool) (ctx : Context) :
    a.resolveBare (out.move f) name g isQualifier ctx =
      (a.resolveBare out name g isQualifier ctx).map (Option.map (ResolvedIdentifier.move f)) := by
  have href : a.asRef (out.move f) name g =
      (a.asRef out name g).map (Option.map (ResolvedIdentifier.move f)) := by
    unfold asRef
    rcases a.findRef name g with _ | _ | r
    · rfl
    · rfl
    · simp only [Option.bind_eq_bind, Option.bind_some, Option.map_some, describeRef_move]
  have hcte : some (a.asCte (out.move f) name) =
      (some (a.asCte out name)).map (Option.map (ResolvedIdentifier.move f)) := by
    rw [asCte, asCte, Option.map_some, Option.map_map]
    rfl
  have hrelation : some (a.asRelation (out.move f) name) =
      (some (a.asRelation out name)).map (Option.map (ResolvedIdentifier.move f)) := by
    rw [asRelation, asRelation, Option.map_some, Option.map_map]
    rfl
  have hschema : some (a.asSchema (out.move f) name) =
      (some (a.asSchema out name)).map (Option.map (ResolvedIdentifier.move f)) := by
    rw [asSchema, asSchema, Option.map_some, Option.map_map]
    rfl
  unfold resolveBare
  simp only [href, hcte, hrelation, hschema, asColumn_move]
  split_ifs <;>
  · rw [← firstFound_map]
    rfl

theorem resolveName_move (at_ : ℤ) :
    a.resolveName (out.move f) at_ =
      (a.resolveName out at_).map (Option.map (ResolvedIdentifier.move f)) := by
  unfold resolveName
  simp only [Option.bind_eq_bind]
  cases textAt a.toks at_ with
  | none => rfl
  | some name =>
    simp only [Option.bind_some]
    cases qualifierBefore a.toks at_ with
    | none => rfl
    | some q =>
      simp only [Option.bind_some]
      cases a.groupOf at_ with
      | none => rfl
      | some g =>
        simp only [Option.bind_some]
        split_ifs
        · exact resolveMember_move f a out _ name g
        · cases detectContext a.toBrackets at_ with
          | none => rfl
          | some ctx => exact resolveBare_move f a out name g _ ctx

end Analyzer
end Results

section Same

variable {type : DatabaseType}

/-- The two texts read alike at the two positions. -/
structure SameView (v : Views) (d : Dialect) : Prop where
  inside : v.cursor ≤ v.sql.length
  inside' : v.cursor' ≤ v.sql'.length
  cursor : v.cursor' = v.move v.cursor
  literal : insideLiteral v.cursor' (tokenize v.sql' d) = insideLiteral v.cursor (tokenize v.sql d)
  tokens : List.Forall₂ v.Moved (statementTokens (tokenize v.sql d) v.cursor v.sql.length)
    (statementTokens (tokenize v.sql' d) v.cursor' v.sql'.length)

variable {v : Views}

theorem complete_moved (h : SameView v (dialectFor type)) (catalog : CompletionCatalog) :
    complete v.sql' v.cursor' catalog type =
      (complete v.sql v.cursor catalog type).map (CompletionResult.move v.move) := by
  have hoffers : offersAt v.sql' v.cursor' catalog type =
      (offersAt v.sql v.cursor catalog type).map fun p => (p.1.move v.move, p.2) := by
    have hnothing : (⟨0, false, [], v.cursor', v.cursor'⟩ : Typed) =
        Typed.move v.move ⟨0, false, [], v.cursor, v.cursor⟩ := by
      simp [Typed.move, h.cursor]
    unfold offersAt
    simp only [h.literal, Views.syms_moved h.tokens, Views.typedFrom_moved h.cursor h.tokens 0,
      hnothing]
    split_ifs
    · rfl
    · simp only [Option.bind_eq_bind]
      rw [Option.map_bind]
      rfl
    · simp only [Option.bind_eq_bind]
      rw [Option.map_bind]
      congr 1
      funext a
      simp only [Function.comp_apply, Option.map_bind]
      rfl
  rw [complete, complete, min_eq_left h.inside, min_eq_left h.inside', hoffers]
  cases offersAt v.sql v.cursor catalog type with
  | none => rfl
  | some p =>
    obtain ⟨typed, offers⟩ := p
    simp only [Option.map_some, Option.bind_eq_bind, Option.bind_some]
    have he : (typed.move v.move).emitter type = typed.emitter type := rfl
    rw [he]
    cases (typed.emitter type).take offers <;> rfl

theorem resolveIdentifierAt_moved (h : SameView v (dialectFor type)) (catalog : CompletionCatalog) :
    resolveIdentifierAt v.sql' v.cursor' catalog type =
      (resolveIdentifierAt v.sql v.cursor catalog type).map
        (Option.map (ResolvedIdentifier.move v.move)) := by
  unfold resolveIdentifierAt
  simp only [min_eq_left h.inside, min_eq_left h.inside', Views.syms_moved h.tokens]
  split_ifs
  · rfl
  simp only [Option.bind_eq_bind]
  rw [Option.map_bind]
  congr 1
  funext a
  have hrel := Views.identifierFrom_moved h.tokens 0 Option.Rel.none
  simp only [Function.comp_apply]
  revert hrel
  generalize identifierFrom v.cursor 0 none _ = found
  generalize identifierFrom v.cursor' 0 none _ = found'
  intro hrel
  cases hrel with
  | none => rfl
  | @some p p' hp =>
    obtain ⟨i, t⟩ := p
    obtain ⟨i', t'⟩ := p'
    obtain ⟨rfl, ht⟩ := hp
    have hplace : ({ start := t'.start, stop := t'.stop } : ResolvedIdentifier) =
        ResolvedIdentifier.move v.move { start := t.start, stop := t.stop } := by
      rw [ht.start, ht.stop]
      rfl
    simp only
    rw [hplace]
    exact a.resolveName_move v.move _ _

end Same
end DearSql
