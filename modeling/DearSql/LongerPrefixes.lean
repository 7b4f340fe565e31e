import DearSql.Ranking
import DearSql.ReplaceRange
import DearSql.SameView
import DearSql.TypedPlaces

/-! What happens to the items as a word is typed on: none of them matches better, and none of them is
new unless the word itself brings names into scope. -/
namespace DearSql
open Lexing Loops

section Tiers

variable {label p p' : Text} {fuzzy : Bool}

theorem MatchClass.Holds.shorter {c : MatchClass} (hpre : p <+: p') (h : c.Holds label p') :
    c.Holds label p := by
  have hlower : lower p <+: lower p' := hpre.map _
  cases c with
  | prefix_ => exact hlower.trans h
  | boundary =>
    obtain ⟨pos, hocc, hpart⟩ := h
    exact ⟨pos, hlower.trans hocc, hpart⟩
  | substring => exact hlower.isInfix.trans h
  | subsequence => exact hlower.sublist.trans h

open Classical in
/-- The tiers as a ladder of the classes. -/
theorem matchTier_eq (hne : p ≠ []) (label : Text) (fuzzy : Bool) :
    matchTier label p fuzzy = some (
      if p <+: label then 4150
      else if MatchClass.prefix_.Holds label p then 4000
      else if MatchClass.boundary.Holds label p then 3000
      else if fuzzy ∧ 2 ≤ p.length ∧ MatchClass.substring.Holds label p then 2000
      else if fuzzy ∧ 2 ≤ p.length ∧ MatchClass.subsequence.Holds label p then 1000
      else -1) := by
  obtain ⟨t, ht, -⟩ := matchTier_yields label p fuzzy
  rw [ht]
  rw [matchTier, if_neg hne] at ht
  by_cases hstart : p <+: label
  · rw [if_pos (List.isPrefixOf_iff_prefix.mpr hstart)] at ht
    rw [if_pos hstart, ht]
  have hstart' : ¬p.isPrefixOf label = true := fun h => hstart (List.isPrefixOf_iff_prefix.mp h)
  rw [if_neg hstart'] at ht
  rw [if_neg hstart]
  by_cases hfolded : istartsWith label p = true
  · rw [if_pos hfolded] at ht
    rw [if_pos (holds_prefix_iff.mpr (.inr hfolded)), ht]
  rw [if_neg hfolded] at ht
  rw [if_neg fun h => (holds_prefix_iff.mp h).elim hstart' hfolded]
  obtain ⟨boundary, hloop, rfl⟩ := Option.map_eq_some_iff.mp ht
  have hboundary := boundaryLoop_iff hne hloop
  cases boundary with
  | true => rw [if_pos (hboundary.mp rfl), if_pos rfl]
  | false =>
    have hno : ¬MatchClass.boundary.Holds label p := fun h => by simpa using hboundary.mpr h
    have hseq : MatchClass.subsequence.Holds label p ↔ isSubsequence label p = true :=
      isSubsequence_iff.symm
    rw [if_neg hno, if_neg Bool.false_ne_true, fuzzyTier, holds_substring_iff hne, hseq]
    cases fuzzy <;> simp

theorem Matches.holds (h : Matches label p) :
    MatchClass.prefix_.Holds label p ∨ MatchClass.boundary.Holds label p := by
  rcases h with h | ⟨pos, before, here, hbefore, hhere, hocc, hpart⟩
  · exact .inl h
  · refine .inr ⟨pos + 1, hocc, before, here, ?_, by rwa [at?_ofNat], hpart⟩
    rwa [Nat.cast_succ, add_sub_cancel_right, at?_ofNat]

/-- A longer prefix never gets a better tier. -/
theorem matchTier_longer (hne : p ≠ []) (hpre : p <+: p')
    (hlen : fuzzy = true → 2 ≤ p.length ∨ Matches label p') :
    ∃ t t', matchTier label p fuzzy = some t ∧ matchTier label p' fuzzy = some t' ∧ t' ≤ t := by
  have hne' : p' ≠ [] := fun h => hne (List.prefix_nil.mp (h ▸ hpre))
  refine ⟨_, _, matchTier_eq hne label fuzzy, matchTier_eq hne' label fuzzy, ?_⟩
  have hstart : p' <+: label → p <+: label := hpre.trans
  have hholds : ∀ c : MatchClass, c.Holds label p' → c.Holds label p := fun c => .shorter hpre
  -- the first rung that p' reaches is one that p reaches
  by_cases h1 : p' <+: label
  · rw [if_pos h1, if_pos (hstart h1)]
  rw [if_neg h1]
  by_cases h2 : MatchClass.prefix_.Holds label p'
  · rw [if_pos h2, if_pos (hholds _ h2)]
    split_ifs <;> norm_num
  rw [if_neg h2]
  by_cases h3 : MatchClass.boundary.Holds label p'
  · rw [if_pos h3, if_pos (hholds _ h3)]
    split_ifs <;> norm_num
  rw [if_neg h3]
  have hlen : fuzzy = true → 2 ≤ p.length := fun hf =>
    (hlen hf).resolve_right fun hm => hm.holds.elim h2 h3
  by_cases h4 : fuzzy ∧ 2 ≤ p'.length ∧ MatchClass.substring.Holds label p'
  · rw [if_pos h4, if_pos (⟨h4.1, hlen h4.1, hholds _ h4.2.2⟩ : fuzzy = true ∧ _ ∧ _)]
    split_ifs <;> norm_num
  rw [if_neg h4]
  by_cases h5 : fuzzy ∧ 2 ≤ p'.length ∧ MatchClass.subsequence.Holds label p'
  · rw [if_pos h5, if_pos (⟨h5.1, hlen h5.1, hholds _ h5.2.2⟩ : fuzzy = true ∧ _ ∧ _)]
    split_ifs <;> norm_num
  rw [if_neg h5]
  split_ifs <;> norm_num

end Tiers

section Offers

variable {e e' : Emitter}

theorem plain_addRelations (catalog : CompletionCatalog) (tableBonus viewBonus : ℤ) :
    (addRelations e catalog tableBonus viewBonus).map Offer.plain =
      (addRelations e' catalog tableBonus viewBonus).map Offer.plain := by
  simp only [addRelations, List.map_append, List.map_map]
  rfl

theorem plain_addSchemas (catalog : CompletionCatalog) (bonus : ℤ) :
    (addSchemas e catalog bonus).map Offer.plain = (addSchemas e' catalog bonus).map Offer.plain := by
  simp [addSchemas, Offer.plain]

theorem plain_addSchemaMembers (catalog : CompletionCatalog) (qualifier : List Text) (bonus : ℤ)
    (withSequences : Bool) :
    (addSchemaMembers e catalog qualifier bonus withSequences).map Offer.plain =
      (addSchemaMembers e' catalog qualifier bonus withSequences).map Offer.plain := by
  simp only [addSchemaMembers, List.map_append, List.map_map, apply_ite (List.map Offer.plain)]
  rfl

variable (htype : e.type = e'.type)
include htype

theorem plain_addKeywords (boosted : List Text) (base boost : ℤ) :
    (addKeywords e boosted base boost).map Offer.plain =
      (addKeywords e' boosted base boost).map Offer.plain := by
  simp [addKeywords, htype, Offer.plain]

theorem plain_addFunctions (catalog : CompletionCatalog) (base : ℤ) :
    (addFunctions e catalog base).map Offer.plain = (addFunctions e' catalog base).map Offer.plain := by
  simp only [addFunctions, htype, List.map_append, List.map_map]
  rfl

/-- What a place is offered besides the names in scope is the same but for the inserted texts. -/
theorem plain_general (htyped : e.prefix_ ≠ []) (htyped' : e'.prefix_ ≠ [])
    (catalog : CompletionCatalog) (qualifier : List Text) (kind : Ctx) (bare : Bool) :
    (e.general catalog qualifier kind bare).map Offer.plain =
      (e'.general catalog qualifier kind bare).map Offer.plain := by
  unfold Emitter.general
  by_cases hq : qualifier ≠ []
  · rw [if_pos hq, if_pos hq]
    exact plain_addSchemaMembers _ _ _ _
  rw [if_neg hq, if_neg hq]
  cases kind with
  | none | targetColumns => rfl
  | statementStart | keyword | afterRelation => exact plain_addKeywords htype _ _ _
  | relation =>
    simp only [if_neg htyped, if_neg htyped', htype, List.map_append, List.map_map,
      @plain_addRelations e e', @plain_addSchemas e e']
    rfl
  | column =>
    simp only [htype, List.map_append, List.map_map, apply_ite (List.map Offer.plain),
      plain_addFunctions htype, plain_addKeywords htype, @plain_addRelations e e']
    rfl

omit htype in
theorem general_bare {bare bare' : Bool} (hbare : bare' = true → bare = true)
    (catalog : CompletionCatalog) (qualifier : List Text) (kind : Ctx) :
    e.general catalog qualifier kind bare' ⊆ e.general catalog qualifier kind bare := by
  unfold Emitter.general
  by_cases hq : qualifier ≠ []
  · rw [if_pos hq, if_pos hq]
    exact List.Subset.refl _
  rw [if_neg hq, if_neg hq]
  cases kind with
  | column =>
    intro o ho
    simp only [List.mem_append] at ho ⊢
    refine ho.imp_left (Or.imp_right fun h => ?_)
    cases hb : bare' with
    | false => simp [hb] at h
    | true =>
      rw [if_pos hb] at h
      rwa [if_pos (hbare hb)]
  | _ => exact List.Subset.refl _

end Offers

section Items

variable {e e' : Emitter} {o o' : Offer} {it' : CompletionItem}

/-- `e'` goes on where `e` stops typing an unquoted word. -/
structure Emitter.Longer (e e' : Emitter) : Prop where
  type : e.type = e'.type
  unquoted : e.quoted = false
  unquoted' : e'.quoted = false
  typed : e.prefix_ ≠ []
  more : e.prefix_ <+: e'.prefix_

theorem Emitter.Longer.typed' (h : e.Longer e') : e'.prefix_ ≠ [] :=
  fun hnil => h.typed (List.prefix_nil.mp (hnil ▸ h.more))

/-- The item was there before, scored no lower, unless its label was what stood there. -/
theorem add_of_longer (h : e.Longer e') (hplain : o.plain = o'.plain)
    (hlen : o'.fuzzy = true → 2 ≤ e.prefix_.length ∨ Matches o'.label e'.prefix_)
    (hadd : e'.add o' = some (some it')) :
    ieq it'.label e.prefix_ = true ∨ ∃ it, e.add o = some (some it) ∧
      { it' with insertText := it.insertText, score := it.score } = it ∧ it'.score ≤ it.score := by
  obtain ⟨tier', htier', h0, rfl⟩ := item_of_add hadd
  obtain ⟨hlabel, hkind, hdetail, howner, -, hbonus, hfuzzy⟩ := Offer.mk.inj hplain
  obtain ⟨t, t', ht, ht', hle⟩ := @matchTier_longer o'.label _ _ _ h.typed h.more hlen
  obtain rfl : t' = tier' := Option.some_inj.mp (ht'.symm.trans htier')
  by_cases hsame : ieq o'.label e.prefix_ = true
  · exact .inl hsame
  refine .inr ⟨⟨o.label, o.kind, o.detail, o.owner, o.insert, t + o.bonus⟩, ?_, ?_, ?_⟩
  · rw [Emitter.add, if_neg (by simp [h.unquoted]), hlabel, hfuzzy, ht, Option.bind_eq_bind,
      Option.bind_some, if_neg (by omega), if_neg (by simp [hsame])]
  · simp [hlabel, hkind, hdetail, howner]
  · simp only [hbonus]
    omega

/-- The items have one with the fields of `it'` but for the inserted text, scored no lower, or the
one that has its key. -/
def OfferedBefore (items : List CompletionItem) (it' : CompletionItem) : Prop :=
  ∃ it, { it' with insertText := it.insertText, score := it.score } = it ∧ it'.score ≤ it.score ∧
    ∃ kept ∈ items, itemKey kept = itemKey it ∧ it.score ≤ kept.score

/-- The word brings no name into scope but itself. -/
structure Scope.BringsNothing (s s' : Scope) (word : Text) : Prop where
  names : ∀ n ∈ s'.names, ieq n.label word = true ∨ n ∈ s.names
  bare : s'.bare = true → s.bare = true

instance (s s' : Scope) (word : Text) : Decidable (s.BringsNothing s' word) :=
  decidable_of_iff
    ((∀ n ∈ s'.names, ieq n.label word = true ∨ n ∈ s.names) ∧ (s'.bare = true → s.bare = true))
    ⟨fun h => ⟨h.1, h.2⟩, fun h => ⟨h.names, h.bare⟩⟩

/-- An item at a place comes from an offer there, which the place had for the shorter word too. -/
theorem offeredBefore {own own' : List Offer} {s s' : Scope} {catalog : CompletionCatalog}
    {qualifier : List Text} {kind : Ctx} {added added' : List CompletionItem} (h : e.Longer e')
    (hscope : s.BringsNothing s' e'.prefix_) (hown : own.map Offer.plain = s.names)
    (hown' : own'.map Offer.plain = s'.names)
    (hadded : e.items (own ++ e.general catalog qualifier kind s.bare) = some added)
    (hadded' : e'.items (own' ++ e'.general catalog qualifier kind s'.bare) = some added')
    (hit' : it' ∈ firstOfKey [] (sortItems added'))
    (hlen : 2 ≤ e.prefix_.length ∨ Matches it'.label e'.prefix_) :
    ieq it'.label e.prefix_ = true ∨ OfferedBefore (firstOfKey [] (sortItems added)) it' := by
  obtain ⟨o', ho', hadd'⟩ :=
    mem_items hadded' (mem_sortItems.mp ((firstOfKey_sublist _ _).subset hit'))
  obtain ⟨hlabel, -, -, -, hother, -⟩ := add_eq_some hadd'
  have hoffer : ∃ o ∈ own ++ e.general catalog qualifier kind s.bare, o.plain = o'.plain := by
    rcases List.mem_append.mp ho' with ho' | ho'
    · have hname : o'.plain ∈ s'.names := hown' ▸ List.mem_map_of_mem ho'
      rcases hscope.names _ hname with hsame | hold
      · rw [ieq, decide_eq_true_eq] at hsame
        exact absurd (hlabel ▸ hsame) (hother h.unquoted' h.typed')
      · rw [← hown] at hold
        obtain ⟨o, ho, hplain⟩ := List.mem_map.mp hold
        exact ⟨o, List.mem_append_left _ ho, hplain⟩
    · have hold : o'.plain ∈ (e.general catalog qualifier kind s.bare).map Offer.plain := by
        rw [plain_general h.type h.typed h.typed']
        exact List.mem_map_of_mem (general_bare hscope.bare _ _ _ ho')
      obtain ⟨o, ho, hplain⟩ := List.mem_map.mp hold
      exact ⟨o, List.mem_append_right _ ho, hplain⟩
  obtain ⟨o, ho, hplain⟩ := hoffer
  refine (add_of_longer h hplain (fun _ => hlabel ▸ hlen) hadd').imp_right ?_
  rintro ⟨it, hadd, hit, hscore⟩
  have hmem := mem_sortItems.mpr (mem_items_of_add hadded ho hadd)
  obtain ⟨kept, hfirst, hkey⟩ := exists_firstOf hmem
  exact ⟨it, hit, hscore, kept, mem_firstOfKey.mpr ⟨by simp, hfirst⟩, hkey,
    score_le_of_sortKey (hfirst.best (sorted_sortItems _) hmem hkey.symm)⟩

end Items

section Typing

variable {sql : Text} {cursor : ℕ} {type : DatabaseType} {before after : List Sym} {p : Text}

/-- The statement at the cursor has these tokens before and after a word, which is `p` up to the
cursor. -/
def Types (sql : Text) (cursor : ℕ) (type : DatabaseType) (before after : List Sym) (p : Text) :
    Prop :=
  ∃ ts t us, statementTokens (tokenize sql (dialectFor type)) cursor sql.length = ts ++ t :: us ∧
    syms ts = before ∧ syms us = after ∧ t.kind.kind = .word ∧ t.start < cursor ∧
    cursor ≤ t.stop ∧ slice sql t.start cursor = p

/-- What is in scope where the cursor types. -/
def scopeAt (sql : Text) (cursor : ℕ) (catalog : CompletionCatalog) (type : DatabaseType) :
    Option Scope := do
  let toks := statementTokens (tokenize sql (dialectFor type)) cursor sql.length
  let a ← analyze catalog (syms toks)
  let place ← a.placeAt (typedFrom sql cursor 0 toks).cur
  some place.scope

/-- The loop passes what is closed before the word. -/
theorem typedFrom_word {t : Token} {ts : List Token} (hword : t.kind.kind = .word)
    (hstart : t.start < cursor) (hstop : cursor ≤ t.stop)
    (hts : ∀ u ∈ ts, u.stop ≤ t.start ∧ u.kind.closed = true ∧ u.start < u.stop) (us : List Token)
    (i : ℕ) : typedFrom sql cursor i (ts ++ t :: us) =
      ⟨i + ts.length, false, slice sql t.start cursor, t.start, t.stop⟩ := by
  induction ts generalizing i with
  | nil => rw [List.nil_append, typedFrom, if_neg (by omega), if_pos ⟨hword, hstop⟩]; rfl
  | cons u ts ih =>
    obtain ⟨hle, hclosed, hlt⟩ := hts u List.mem_cons_self
    rw [List.cons_append, typedFrom, if_neg (by omega), if_neg (by omega),
      if_neg (by rw [hclosed]; simp; omega), ih fun v hv => hts v (List.mem_cons_of_mem _ hv),
      List.length_cons, Nat.add_right_comm, Nat.add_assoc]

/-- A word at the cursor is what is typed, and no literal. -/
theorem Types.typed (h : Types sql cursor type before after p) :
    insideLiteral cursor (tokenize sql (dialectFor type)) = false ∧
      ∃ w start stop,
        syms (statementTokens (tokenize sql (dialectFor type)) cursor sql.length) =
          before ++ .word w :: after ∧
        typedFrom sql cursor 0 (statementTokens (tokenize sql (dialectFor type)) cursor sql.length) =
          ⟨before.length, false, p, start, stop⟩ := by
  obtain ⟨ts, t, us, htoks, rfl, rfl, hword, hstart, hstop, rfl⟩ := h
  have hin : ∀ u ∈ ts ++ t :: us, u ∈ tokenize sql (dialectFor type) :=
    fun u hu => mem_of_statementTokens (htoks ▸ hu)
  have ht := hin t (by simp)
  have hopen : ∀ u ∈ tokenize sql (dialectFor type), u.stop ≤ t.start → u.kind.closed = true := by
    intro u hu hlt
    by_contra hno
    have := stop_of_open hu (by simpa using hno)
    have := (tokenize_partitions sql _).inside t ht
    omega
  constructor
  · rw [insideLiteral_tokenize, List.any_eq_false]
    intro u hu
    simp only [Bool.and_eq_true, decide_eq_true_eq, not_and]
    intro hbefore
    rcases tokens_apart hu ht with rfl | hlt | hlt
    · simp [barsCursor, hword]
    · have hclosed := hopen u hu hlt
      unfold barsCursor
      cases u.kind.kind <;> simp [hclosed] <;> try omega
      split_ifs <;> simp <;> omega
    · omega
  · refine ⟨t.kind.text, t.start, t.stop, ?_, ?_⟩
    · rw [htoks, syms, List.map_append, List.map_cons, TokInfo.sym, hword]
      rfl
    rw [htoks]
    have hskip : ∀ u ∈ ts, u.stop ≤ t.start := fun u hu => by
      have hsub : (ts ++ t :: us).Sublist (tokenize sql (dialectFor type)) := by
        rw [← htoks]
        exact List.filter_sublist.trans ((List.drop_sublist _ _).trans (List.take_sublist _ _))
      have hpairs := (tokenize_partitions sql (dialectFor type)).disjoint.sublist hsub
      exact (List.pairwise_append.mp hpairs).2.2 u hu t List.mem_cons_self
    rw [typedFrom_word hword hstart hstop, Nat.zero_add, syms, List.length_map]
    exact fun u hu => ⟨hskip u hu, hopen u (hin u (by simp [hu])) (hskip u hu),
      start_lt_stop (hin u (by simp [hu]))⟩

/-- Completion at a word: the names in scope and what else the place is offered, taken by what is
typed. -/
theorem Types.completes (h : Types sql (min cursor sql.length) type before after p)
    (catalog : CompletionCatalog) :
    ∃ a place w r, analyze catalog (before ++ .word w :: after) = some a ∧
      a.placeAt before.length = some place ∧
      scopeAt sql (min cursor sql.length) catalog type = some place.scope ∧
      complete sql cursor catalog type = some r ∧
      (isSqlDialect type = false → r.items = []) ∧
      (isSqlDialect type = true → ∃ start stop own added,
        own.map Offer.plain = place.scope.names ∧
        offersAt sql (min cursor sql.length) catalog type =
          some (⟨before.length, false, p, start, stop⟩, own ++ Emitter.general ⟨p, false, type⟩
            catalog place.qualifier place.ctx.kind place.scope.bare) ∧
        Emitter.items ⟨p, false, type⟩ (own ++ Emitter.general ⟨p, false, type⟩ catalog
          place.qualifier place.ctx.kind place.scope.bare) = some added ∧
        r.items = firstOfKey [] (sortItems added)) := by
  obtain ⟨hliteral, w, start, stop, hsyms, htyped⟩ := h.typed
  obtain ⟨a, ha, hwf, htoks, hcatalog⟩ := analyze_yields catalog (before ++ .word w :: after)
  have hcur : (before.length : ℤ) ≤ a.size := by
    simp only [Brackets.size, htoks, List.length_append, List.length_cons]
    omega
  obtain ⟨offers, hoffers, -⟩ := a.offers_yields hwf ⟨p, false, type⟩ (by omega) hcur
  obtain ⟨place, own, hplace, hown, hall⟩ := offers_placeAt hoffers
  obtain ⟨r, hr, -⟩ := complete_yields sql cursor catalog type
  refine ⟨a, place, w, r, ha, hplace, ?_, hr, fun hsql => ?_, fun hsql => ?_⟩
  · simp only [scopeAt, hsyms, htyped, ha, Option.bind_eq_bind, Option.bind_some, hplace]
  · have hnone : r = ⟨[], min cursor sql.length, min cursor sql.length⟩ := by
      simpa [complete, offersAt, hsql, Emitter.take, Emitter.items, firstOfKey] using hr.symm
    rw [hnone]
  · have hat : offersAt sql (min cursor sql.length) catalog type =
        some (⟨before.length, false, p, start, stop⟩, offers) := by
      simp only [offersAt, hsql, hsyms, ha, hliteral, htyped, Typed.emitter, hoffers,
        Option.bind_eq_bind, Option.bind_some]
      rfl
    obtain ⟨added, hadded, hcomplete⟩ := complete_offers hat
    obtain rfl := Option.some_inj.mp (hr.symm.trans hcomplete)
    rw [hall, hcatalog] at hat hadded
    exact ⟨start, stop, own, added, hown, hat, hadded, rfl⟩

/-- Of two names in scope the column is offered. -/
theorem Types.offers_column (h : Types sql (min cursor sql.length) type before after p)
    (hsql : isSqlDialect type = true) {catalog : CompletionCatalog} {o o' : Offer}
    {it : CompletionItem}
    (hscope : (scopeAt sql (min cursor sql.length) catalog type).map (·.names.length) = some 2)
    (hfirst : (offersAt sql (min cursor sql.length) catalog type).map (·.2.take 2) = some [o, o'])
    (hadd : Emitter.add ⟨p, false, type⟩ o = some (some it)) (hk : o.kind = .column)
    (hk' : o'.kind ≠ .column) : ∃ r ∈ complete sql cursor catalog type, it ∈ r.items := by
  obtain ⟨a, place, w, r, -, -, hplace, hr, -, hitems⟩ := h.completes catalog
  obtain ⟨start, stop, own, added, hown, hat, hadded, heq⟩ := hitems hsql
  have hlen : own.length = 2 := by
    rw [hplace] at hscope
    rw [← List.length_map Offer.plain, hown]
    exact Option.some_inj.mp hscope
  have hpair : own = [o, o'] := by
    rw [hat] at hfirst
    rw [← Option.some_inj.mp hfirst, ← hlen]
    exact List.take_left.symm
  refine ⟨r, hr, heq ▸ mem_of_unrivalled (mem_items_of_add hadded (by simp [hpair]) hadd) ?_⟩
  -- no other column is offered
  intro z hz hkey
  have hkind : z.kind = .column := (kind_of_key hkey).trans ((add_eq_some hadd).2.1.trans hk)
  obtain ⟨q, hq, hz⟩ := mem_items hadded hz
  have hqk := (add_eq_some hz).2.1.symm.trans hkind
  rw [hpair] at hq
  rcases List.mem_append.mp hq with hq | hq
  · rcases List.mem_pair.mp hq with rfl | rfl
    · exact Option.some_inj.mp (Option.some_inj.mp (hz.symm.trans hadd))
    · exact absurd hqk hk'
  · exact absurd hqk (kind_general hq)

/-- A longer word gets no better tier, and no item that the shorter one did not have at the same
place, unless the longer word brings a name into scope. -/
theorem typing_more_narrows {p p' : Text} (hne : p ≠ []) (hpre : p <+: p') :
    (∀ (label : Text) (fuzzy : Bool), (fuzzy = true → 2 ≤ p.length) →
      ∃ t t', matchTier label p fuzzy = some t ∧ matchTier label p' fuzzy = some t' ∧ t' ≤ t) ∧
    ∀ (sql sql' : Text) (cursor cursor' : ℕ) (type : DatabaseType) (before after : List Sym),
      Types sql (min cursor sql.length) type before after p →
      Types sql' (min cursor' sql'.length) type before after p' →
      ∀ catalog : CompletionCatalog, ∃ s s' r r',
        scopeAt sql (min cursor sql.length) catalog type = some s ∧
        scopeAt sql' (min cursor' sql'.length) catalog type = some s' ∧
        complete sql cursor catalog type = some r ∧
        complete sql' cursor' catalog type = some r' ∧
        (s.BringsNothing s' p' → ∀ it' ∈ r'.items, 2 ≤ p.length ∨ Matches it'.label p' →
          ieq it'.label p = true ∨ OfferedBefore r.items it') := by
  refine ⟨fun label fuzzy hlen => matchTier_longer hne hpre fun hf => .inl (hlen hf),
    fun sql sql' cursor cursor' type before after h h' catalog => ?_⟩
  obtain ⟨a, place, w, r, ha, hplace, hscope, hr, -, hitems⟩ := h.completes catalog
  obtain ⟨a', place', w', r', ha', hplace', hscope', hr', hnone, hitems'⟩ := h'.completes catalog
  refine ⟨_, _, r, r', hscope, hscope', hr, hr', fun hbrings it' hit' hlen => ?_⟩
  cases hsql : isSqlDialect type with
  | false =>
    rw [hnone hsql] at hit'
    cases hit'
  | true =>
    obtain ⟨-, -, own, added, hown, -, hadded, heq⟩ := hitems hsql
    obtain ⟨-, -, own', added', hown', -, hadded', heq'⟩ := hitems' hsql
    obtain ⟨hqualifier, hctx⟩ : place'.qualifier = place.qualifier ∧ place'.ctx = place.ctx := by
      obtain ⟨b, hb, R⟩ := retyped_buildGroups w' (analyze_eq_some ha).1
      obtain rfl := Option.some_inj.mp (hb.symm.trans (analyze_eq_some ha').1)
      exact place_retyped R (by omega) hplace hplace'
    rw [heq'] at hit'
    rw [hqualifier, hctx] at hadded'
    rw [heq]
    have hlonger : Emitter.Longer ⟨p, false, type⟩ ⟨p', false, type⟩ := ⟨rfl, rfl, rfl, hne, hpre⟩
    exact offeredBefore hlonger hbrings hown hown' hadded hadded' hit' hlen

/-- A table with a column whose name starts as the keyword FROM does. -/
def datedCatalog : CompletionCatalog where
  tables := [{ name := "x".toList, columns := [{ name := "from_date".toList }] }]

def fromDate : CompletionItem where
  label := "from_date".toList
  kind := .column
  owner := "x".toList
  insertText := "from_date".toList
  score := 5050

def wordAt (w : String) (start : ℕ) : Token :=
  ⟨{ kind := .word, text := w.toList }, start, start + w.toList.length⟩

/-- The column and the table as they are offered where the table is in scope. -/
def columnOffer : Offer where
  label := "from_date".toList
  kind := .column
  owner := "x".toList
  insert := "from_date".toList
  bonus := 900

def tableOffer : Offer where
  label := "x".toList
  kind := .alias_
  detail := "x".toList
  insert := "x".toList
  bonus := 750

/-- In a select list the column is offered for both words. -/
theorem typing_more_narrows_column :
    ∃ r, complete "SELECT fr FROM x".toList 9 datedCatalog .SQLITE = some r ∧
      OfferedBefore r.items fromDate := by
  have htypes : Types "SELECT fr FROM x".toList 9 .SQLITE [.word "SELECT".toList]
      [.word "FROM".toList, .word "x".toList] "fr".toList :=
    ⟨[wordAt "SELECT" 0], wordAt "fr" 7, [wordAt "FROM" 10, wordAt "x" 15], by decide +kernel⟩
  have htypes' : Types "SELECT fro FROM x".toList 10 .SQLITE [.word "SELECT".toList]
      [.word "FROM".toList, .word "x".toList] "fro".toList :=
    ⟨[wordAt "SELECT" 0], wordAt "fro" 7, [wordAt "FROM" 11, wordAt "x" 16], by decide +kernel⟩
  obtain ⟨s, s', r, r', hs, hs', hr, hr', h⟩ :=
    (@typing_more_narrows "fr".toList "fro".toList (by decide) (by decide)).2
      "SELECT fr FROM x".toList "SELECT fro FROM x".toList 9 10 .SQLITE
      [.word "SELECT".toList] [.word "FROM".toList, .word "x".toList] htypes htypes' datedCatalog
  have hsame : scopeAt "SELECT fr FROM x".toList 9 datedCatalog .SQLITE =
      scopeAt "SELECT fro FROM x".toList 10 datedCatalog .SQLITE := by decide +kernel
  obtain ⟨r₁, hr₁, hmem⟩ := @Types.offers_column "SELECT fro FROM x".toList 10 .SQLITE _ _ _
    htypes' rfl datedCatalog columnOffer tableOffer fromDate (by decide +kernel)
    (by decide +kernel) (by decide +kernel) rfl (by decide)
  obtain rfl : s = s' := Option.some_inj.mp (hs.symm.trans (hsame.trans hs'))
  obtain rfl : r' = r₁ := Option.some_inj.mp (hr'.symm.trans hr₁)
  refine ⟨r, hr, (h ⟨fun n hn => .inr hn, id⟩ fromDate hmem (.inl le_rfl)).resolve_left ?_⟩
  decide

theorem allSchemas_dated : allSchemas datedCatalog = [] := rfl

/-- Where the column is not in scope, nothing with its name is offered. -/
theorem general_dated {qualifier : List Text} {kind : Ctx} {bare : Bool} {o : Offer}
    (ho : o ∈ Emitter.general ⟨p, false, .SQLITE⟩ datedCatalog qualifier kind bare) :
    o.label ≠ fromDate.label := by
  have hkeyword : ∀ w ∈ sqlKeywords .SQLITE, w ≠ fromDate.label := fun w hw =>
    (by decide +kernel : ∀ w ∈ commonKeywords ++ sqliteKeywords, w ≠ fromDate.label) w
      (mem_sortUnique hw)
  have hfunction : ∀ w ∈ sqlFunctions .SQLITE, w ≠ fromDate.label := fun w hw =>
    (by decide +kernel : ∀ w ∈ commonFunctions ++ sqliteFunctions, w ≠ fromDate.label) w
      (mem_sortUnique hw)
  have hkeywords {boosted : List Text} {base boost : ℤ}
      (ho : o ∈ addKeywords ⟨p, false, .SQLITE⟩ boosted base boost) :
      o.label ≠ fromDate.label := by
    obtain ⟨kw, hkw, rfl⟩ := List.mem_map.mp ho
    exact hkeyword kw hkw
  have htable : ∀ t ∈ datedCatalog.tables, t.name ≠ fromDate.label := by decide
  have hrelations {b1 b2 : ℤ} (ho : o ∈ addRelations ⟨p, false, .SQLITE⟩ datedCatalog b1 b2) :
      o.label ≠ fromDate.label := by
    rcases List.mem_append.mp ho with ho | ho
    · obtain ⟨t, ht, rfl⟩ := List.mem_map.mp ho
      exact htable t ht
    · cases ho
  unfold Emitter.general at ho
  by_cases hq : qualifier ≠ []
  · rw [if_pos hq] at ho
    simp only [addSchemaMembers, allSchemas_dated, List.mem_append] at ho
    rcases ho with ((ho | ho) | ho) | ho
    · obtain ⟨t, ht, rfl⟩ := List.mem_map.mp ho
      exact htable t (List.mem_filter.mp ht).1
    · cases ho
    · split_ifs at ho
      · cases ho
      · cases ho
    · cases ho
  rw [if_neg hq] at ho
  cases kind with
  | none | targetColumns => cases ho
  | statementStart | keyword | afterRelation => exact hkeywords ho
  | relation =>
    simp only [addSchemas, allSchemas_dated, List.mem_append] at ho
    rcases ho with (ho | ho) | ho
    · exact hrelations ho
    · cases ho
    · split_ifs at ho
      · cases ho
      · obtain ⟨kw, hkw, rfl⟩ := List.mem_map.mp ho
        exact hkeyword kw (List.mem_filter.mp hkw).1
  | column =>
    simp only [addFunctions, List.mem_append] at ho
    rcases ho with (((ho | ho) | ho) | ho) | ho
    · obtain ⟨fn, hfn, rfl⟩ := List.mem_map.mp ho
      exact hfunction fn hfn
    · cases ho
    · exact hkeywords ho
    · split_ifs at ho
      · exact hrelations ho
      · cases ho
    · rw [if_neg (by decide)] at ho
      cases ho

/-- The word FROM makes what follows it a table, whose column was not offered before. -/
theorem typed_keyword_widens :
    Types "SELECT fro x".toList 10 .SQLITE [.word "SELECT".toList] [.word "x".toList] "fro".toList ∧
    Types "SELECT from x".toList 11 .SQLITE [.word "SELECT".toList] [.word "x".toList]
      "from".toList ∧
    ∃ r ∈ complete "SELECT fro x".toList 10 datedCatalog .SQLITE,
      ∃ r' ∈ complete "SELECT from x".toList 11 datedCatalog .SQLITE,
        fromDate ∈ r'.items ∧ ieq fromDate.label "fro".toList = false ∧
        ∀ it ∈ r.items, it.label ≠ fromDate.label := by
  have htypes : Types "SELECT fro x".toList 10 .SQLITE [.word "SELECT".toList] [.word "x".toList]
      "fro".toList := ⟨[wordAt "SELECT" 0], wordAt "fro" 7, [wordAt "x" 11], by decide +kernel⟩
  have htypes' : Types "SELECT from x".toList 11 .SQLITE [.word "SELECT".toList] [.word "x".toList]
      "from".toList := ⟨[wordAt "SELECT" 0], wordAt "from" 7, [wordAt "x" 12], by decide +kernel⟩
  obtain ⟨r', hr', hmem⟩ := @Types.offers_column "SELECT from x".toList 11 .SQLITE _ _ _
    htypes' rfl datedCatalog columnOffer tableOffer fromDate (by decide +kernel)
    (by decide +kernel) (by decide +kernel) rfl (by decide)
  obtain ⟨a, place, w, r, -, -, hplace, hr, -, hitems⟩ :=
    @Types.completes "SELECT fro x".toList 10 .SQLITE _ _ _ htypes datedCatalog
  obtain ⟨start, stop, own, added, hown, -, hadded, heq⟩ := hitems rfl
  have hscope : (scopeAt "SELECT fro x".toList 10 datedCatalog .SQLITE).map (·.names) =
      some [] := by decide +kernel
  refine ⟨htypes, htypes', r, hr, r', hr', hmem, by decide, fun it hit => ?_⟩
  rw [heq] at hit
  obtain ⟨o, ho, hadd⟩ :=
    mem_items hadded (mem_sortItems.mp ((firstOfKey_sublist _ _).subset hit))
  rw [(add_eq_some hadd).1]
  have hnone : own = [] := by
    change (scopeAt "SELECT fro x".toList 10 datedCatalog .SQLITE) = _ at hplace
    rw [hplace] at hscope
    exact List.map_eq_nil_iff.mp (hown.trans (Option.some_inj.mp hscope))
  rw [hnone] at ho
  exact general_dated ho

end Typing
end DearSql
