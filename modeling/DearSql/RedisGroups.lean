import DearSql.Globs
import DearSql.RedisPages

/-! The groups of a key space. Keys are counted into groups by what stands before their first colon,
and listed by a pattern made of it: the characters of the group's name are read as a pattern. -/
namespace DearSql.Redis
open Effects Paging Globs

section Prefixes

def groupPattern (k : Text) : Text := keyPrefix k ++ ":*".toList

variable {k s : Text} {c : Char}

@[simp] theorem keyPrefix_cons (hc : c ≠ ':') : keyPrefix (c :: s) = c :: keyPrefix s := by
  simp [keyPrefix, hc]

@[simp] theorem keyPrefix_colon : keyPrefix (':' :: s) = [] := by simp [keyPrefix]

theorem colon_notMem_keyPrefix : ':' ∉ keyPrefix k := fun h => by
  simpa using List.mem_takeWhile_imp h

theorem keyPrefix_append {p : Text} (hp : ':' ∉ p) : keyPrefix (p ++ ':' :: s) = p := by
  induction p with
  | nil => simp
  | cons c p ih =>
    obtain ⟨hc, hp⟩ := not_or.mp fun h => hp (List.mem_cons.mpr h)
    rw [List.cons_append, keyPrefix_cons (Ne.symm hc), ih hp]

/-- A key with a colon is its prefix, the colon and a rest. -/
theorem key_eq (h : ':' ∈ k) : ∃ t, k = keyPrefix k ++ ':' :: t := by
  induction k with
  | nil => cases h
  | cons c k ih =>
    by_cases hc : c = ':'
    · exact ⟨k, by simp [hc]⟩
    · obtain ⟨t, ht⟩ := ih ((List.mem_cons.mp h).resolve_left (Ne.symm hc))
      exact ⟨t, by rw [keyPrefix_cons hc, List.cons_append, ← ht]⟩

/-- A key without a colon is its own prefix. -/
theorem keyPrefix_self (h : ':' ∉ k) : keyPrefix k = k := by
  rw [keyPrefix, List.takeWhile_eq_self_iff]
  intro c hc
  have hne : c ≠ ':' := fun he => h (he ▸ hc)
  simpa using hne

end Prefixes

section Patterns

variable {g : Glob} {v tail k : Text}

/-- The key is listed as it is counted, whatever else there is. -/
structure Safe (k : Text) : Prop where
  colon : ':' ∈ k
  literal : ∀ c ∈ keyPrefix k, special c = false
  whole : '\x00' ∉ keyPrefix k

theorem cstr_length_lt {s : Text} (h : '\x00' ∈ s) : (cstr s).length < s.length := by
  have hpre : cstr s <+: s := List.takeWhile_prefix _
  refine lt_of_le_of_ne hpre.length_le fun he => ?_
  rw [← hpre.eq_of_length he] at h
  simpa using List.mem_takeWhile_imp h

theorem cstr_groupPattern (h : '\x00' ∉ keyPrefix k) : cstr (groupPattern k) = groupPattern k := by
  refine cstr_of_notMem fun hm => ?_
  rcases List.mem_append.mp hm with hm | hm
  · exact h hm
  · revert hm
    decide

theorem Safe.accepts_iff (h : Safe k) {s : Text} :
    g.accepts (cstr (groupPattern k)) s = true ↔ ∃ t, s = keyPrefix k ++ ':' :: t := by
  rw [cstr_groupPattern h.whole, groupPattern, Glob.accepts_plain h.literal]
  have hcolon : special ':' = false := rfl
  constructor
  · rintro ⟨t, rfl, ht⟩
    obtain ⟨u, rfl, -⟩ := (g.plain ':' _ _ hcolon).mp ht
    exact ⟨u, rfl⟩
  · rintro ⟨u, rfl⟩
    exact ⟨':' :: u, rfl, (g.plain ':' _ _ hcolon).mpr ⟨u, rfl, Glob.accepts_star_end⟩⟩

/-- The part of a pattern before its end, and a key that it takes: the key's prefix is longer, or it
is that part and either has no colon behind it or a special character in it. -/
def Strains (v tail k : Text) : Prop :=
  v.length < (keyPrefix k).length ∨
    (tail = ":*".toList ∧ keyPrefix k = v ∧ (':' ∉ k ∨ ∃ c ∈ v, special c = true))

theorem Strains.length_le (h : Strains v tail k) : v.length ≤ (keyPrefix k).length := by
  rcases h with h | ⟨-, h, -⟩
  · exact h.le
  · rw [h]

/-- Nothing before the end of the pattern takes nothing of the key. -/
theorem not_strains_nil (htail : tail = ":*".toList ∨ tail = []) (h : g.accepts tail k = true) :
    ¬Strains [] tail k := by
  rcases htail with rfl | rfl
  · obtain ⟨t, rfl, -⟩ := (g.plain ':' _ _ rfl).mp h
    rintro (hlong | ⟨-, -, hno | ⟨c, hc, -⟩⟩)
    · simp at hlong
    · exact hno List.mem_cons_self
    · cases hc
  · obtain rfl := (g.nil k).mp h
    rintro (hlong | ⟨htail, -⟩)
    · cases hlong
    · cases htail

/-- The pattern takes a key of another prefix. -/
def TakesOther (g : Glob) (p k : Text) : Prop :=
  ∃ k', g.accepts p k' = true ∧ keyPrefix k' ≠ keyPrefix k

theorem TakesOther.cons {p q : Text} {x : Char} {k : Text} (hx : x ≠ ':')
    (hstep : ∀ s, g.accepts q s = true → g.accepts p (x :: s) = true) (h : TakesOther g q k) :
    TakesOther g p (x :: k) := by
  obtain ⟨k', hk', hne⟩ := h
  refine ⟨x :: k', hstep k' hk', fun he => hne ?_⟩
  rw [keyPrefix_cons hx, keyPrefix_cons hx] at he
  exact (List.cons.inj he).2

/-- A set whose end is the colon before a star. -/
theorem takesOther_star {x : Char} (hx : x ≠ ':') {p : Text}
    (hstep : ∀ s, g.accepts ['*'] s = true → g.accepts p (x :: s) = true) :
    TakesOther g p (x :: k) := by
  refine ⟨x :: 'a' :: keyPrefix k, hstep _ Glob.accepts_star_end, fun he => ?_⟩
  rw [keyPrefix_cons hx, keyPrefix_cons (by decide), keyPrefix_cons hx,
    keyPrefix_self colon_notMem_keyPrefix] at he
  have := congrArg List.length he
  simp at this

/-- A set with no end takes nothing that strains it. -/
theorem not_strains_open {x : Char} (hx : x ≠ ':')
    (h : g.accepts ('[' :: (v ++ tail)) [x] = true) : ¬Strains ('[' :: v) tail [x] := by
  have hpre : keyPrefix [x] = [x] := by simp [hx, keyPrefix]
  rintro (hlong | ⟨rfl, he, -⟩)
  · rw [hpre] at hlong
    simp at hlong
  · rw [hpre] at he
    obtain ⟨rfl, hv⟩ := List.cons.inj he
    rw [← hv] at h
    have hlisted := g.set_listed _ _ _ (by decide) (by decide) (by decide) h
    revert hlisted
    decide

/-- A character that stands for itself leaves the strain to the rest. -/
theorem Strains.of_plain {x : Char} (hx : x ≠ ':') (hplain : special x ≠ true)
    (h : Strains (x :: v) tail (x :: k)) : Strains v tail k := by
  rcases h with h | ⟨htail, hpre, hbad⟩
  · exact .inl (by simpa [keyPrefix_cons hx] using h)
  · rw [keyPrefix_cons hx] at hpre
    refine .inr ⟨htail, (List.cons.inj hpre).2, ?_⟩
    rcases hbad with hno | ⟨d, hd, hspecial⟩
    · exact .inl fun hm => hno (List.mem_cons_of_mem _ hm)
    · rcases List.mem_cons.mp hd with rfl | hd
      · exact absurd hspecial hplain
      · exact .inr ⟨d, hd, hspecial⟩

/-- A set, where the parts behind its end take keys of other prefixes. -/
theorem takesOther_set {x : Char} (htail : tail = ":*".toList ∨ tail = []) (hv : ':' ∉ v) (hx : x ≠ ':')
    (hk : Strains ('[' :: v) tail (x :: k)) (h : g.accepts ('[' :: v ++ tail) (x :: k) = true)
    (hrest : ∀ w, w.length ≤ v.length → ':' ∉ w → Strains w tail k →
      g.accepts (w ++ tail) k = true → TakesOther g (w ++ tail) k) :
    TakesOther g ('[' :: v ++ tail) (x :: k) := by
  have hle := hk.length_le
  rw [keyPrefix_cons hx, List.length_cons, List.length_cons] at hle
  obtain ⟨test, q, hsuffix, hproper, hset⟩ := g.set (v ++ tail)
  obtain ⟨d, t, ht, htest, hin⟩ := (hset _).mp h
  obtain ⟨rfl, rfl⟩ := List.cons.inj ht
  have hstep : ∀ s, g.accepts q s = true → g.accepts ('[' :: (v ++ tail)) (x :: s) = true :=
    fun s hs => (hset _).mpr ⟨x, s, rfl, htest, hs⟩
  have hclosed : ∀ u w, v = u ++ w → q = w ++ tail →
      TakesOther g ('[' :: v ++ tail) (x :: k) := by
    rintro u w rfl rfl
    have hshort : w.length < (keyPrefix k).length := by
      rcases u with - | ⟨d, u⟩
      · obtain ⟨rfl, rfl⟩ := List.append_eq_nil_iff.mp (hproper rfl)
        rcases hk with hk | ⟨hk, -⟩
        · simpa [keyPrefix_cons hx] using hk
        · cases hk
      · simp only [List.length_append, List.length_cons] at hle
        omega
    have hw : ':' ∉ w := fun hm => hv (List.mem_append_right u hm)
    exact (hrest w (by simp) hw (.inl hshort) hin).cons hx hstep
  obtain ⟨u, hu⟩ := hsuffix
  rcases List.append_eq_append_iff.mp hu with ⟨w, hw, hq⟩ | ⟨w, -, htail'⟩
  · exact hclosed u w hw hq
  rcases htail with rfl | rfl
  · have hends : w = [] ∧ q = ":*".toList ∨ q = ['*'] ∨ q = [] := by
      rcases w with - | ⟨d, - | ⟨e, w⟩⟩
      · exact .inl ⟨rfl, htail'.symm⟩
      · exact .inr (.inl (List.cons.inj htail').2.symm)
      · obtain ⟨-, htail'⟩ := List.cons.inj htail'
        exact .inr (.inr (List.append_eq_nil_iff.mp (List.cons.inj htail').2.symm).2)
    rcases hends with ⟨-, rfl⟩ | rfl | rfl
    · exact hclosed v [] (by simp) rfl
    · exact takesOther_star hx hstep
    · obtain rfl := (g.nil k).mp hin
      exact absurd hk (not_strains_open hx h)
  · obtain ⟨-, rfl⟩ := List.append_eq_nil_iff.mp htail'.symm
    exact hclosed v [] (by simp) rfl

/-- A pattern that strains to take a key takes a key of another prefix too. The induction is on the
part before the end. -/
theorem takesOther_of_strains (htail : tail = ":*".toList ∨ tail = []) (hv : ':' ∉ v)
    (hk : Strains v tail k) (h : g.accepts (v ++ tail) k = true) : TakesOther g (v ++ tail) k := by
  induction hn : v.length using Nat.strong_induction_on generalizing v k with
  | _ n ih =>
    subst hn
    cases v with
    | nil => exact absurd hk (not_strains_nil htail h)
    | cons c v =>
      have hle := hk.length_le
      have hv' : ':' ∉ v := fun hm => hv (List.mem_cons_of_mem _ hm)
      clear hv
      cases k with
      | nil => simp [keyPrefix] at hle
      | cons x k =>
        have hx : x ≠ ':' := by
          rintro rfl
          simp at hle
        rw [keyPrefix_cons hx, List.length_cons, List.length_cons] at hle
        by_cases hspecial : special c = true
        swap
        · -- the character stands for itself
          have hplain := fun s => g.plain c (v ++ tail) s (by simpa using hspecial)
          obtain ⟨t, ht, hin⟩ := (hplain _).mp h
          obtain ⟨rfl, rfl⟩ := List.cons.inj ht
          exact (ih v.length (by simp) hv' (hk.of_plain hx hspecial) hin rfl).cons hx fun s hs =>
            (hplain _).mpr ⟨s, rfl, hs⟩
        simp only [special, Bool.or_eq_true, decide_eq_true_eq] at hspecial
        obtain ((rfl | rfl) | rfl) | rfl := hspecial
        · -- a star takes a colon as well
          obtain ⟨t, -, ht⟩ := (g.star _ _).mp h
          refine ⟨':' :: t, (g.star _ _).mpr ⟨t, List.suffix_cons _ _, ht⟩, ?_⟩
          simp [keyPrefix_cons hx]
        · obtain ⟨d, t, ht, hin⟩ := (g.one _ _).mp h
          refine ⟨':' :: t, (g.one _ _).mpr ⟨':', t, rfl, hin⟩, ?_⟩
          simp [keyPrefix_cons hx]
        · exact takesOther_set htail hv' hx hk h fun w hw hcolon hstrains hin =>
            ih w.length (by rw [List.length_cons]; omega) hcolon hstrains hin rfl
        · cases v with
          | nil =>
            rcases htail with rfl | rfl
            · obtain ⟨t, ht, -⟩ := (g.escape ':' _ _).mp h
              exact absurd (List.cons.inj ht).1 hx
            · obtain ⟨rfl, rfl⟩ := List.cons.inj ((g.escape_end _).mp h)
              rcases hk with hk | ⟨hk, -⟩
              · simp [keyPrefix] at hk
              · cases hk
          | cons d v =>
            obtain ⟨t, ht, hin⟩ := (g.escape d _ _).mp h
            obtain ⟨rfl, rfl⟩ := List.cons.inj ht
            have hv' : ':' ∉ v := fun hm => hv' (List.mem_cons_of_mem _ hm)
            refine (ih v.length (by simp) hv' (.inl ?_) hin rfl).cons hx fun s hs =>
              (g.escape x _ _).mpr ⟨s, rfl, hs⟩
            simp only [List.length_cons] at hle
            omega

/-- The pattern of a key that is not safe misses the key or takes a key of another prefix. -/
theorem misses_or_takesOther (g : Glob) (h : ¬Safe k) :
    g.accepts (cstr (groupPattern k)) k = false ∨ TakesOther g (cstr (groupPattern k)) k := by
  cases hown : g.accepts (cstr (groupPattern k)) k with
  | false => exact .inl rfl
  | true =>
    refine .inr ?_
    by_cases hnul : '\x00' ∈ keyPrefix k
    · -- the pattern is cut before it ends
      have hshort := cstr_length_lt hnul
      have hcut : cstr (groupPattern k) = cstr (keyPrefix k) ++ [] := by
        rw [cstr] at hshort
        rw [cstr, groupPattern, List.takeWhile_append, if_neg hshort.ne, List.append_nil, cstr]
      rw [hcut] at hown ⊢
      have hcolon : ':' ∉ cstr (keyPrefix k) := fun hm =>
        colon_notMem_keyPrefix ((List.takeWhile_prefix _).subset hm)
      exact takesOther_of_strains (.inr rfl) hcolon (.inl hshort) hown
    · rw [cstr_groupPattern hnul] at hown ⊢
      refine takesOther_of_strains (.inl rfl) colon_notMem_keyPrefix (.inr ⟨rfl, rfl, ?_⟩) hown
      by_contra hgood
      obtain ⟨hcolon, hliteral⟩ := not_or.mp hgood
      refine h ⟨not_not.mp hcolon, fun c hc => ?_, hnul⟩
      by_contra hspecial
      exact hliteral ⟨c, hc, by simpa using hspecial⟩

end Patterns

section Groups

variable {srv : Server} {index : ℤ} {w : World} {order : List Text}

/-- The prefixes that a key list has, in order. -/
def prefixes (keys : List Text) : List Text := sorted (keys.map keyPrefix).dedup

theorem value_scan (h : ServesScan srv index order 10000 w) (pattern : Text) :
    value (scanKeysLocked srv pattern 10000) (after (ensureSelectedLocked srv index) w) =
      order.take 10000 := by
  exact value_scanKeysLocked h (by norm_num) pattern

/-- The tables of a database are all its keys, and a pattern for each prefix. -/
theorem names_tables (h : ServesScan srv index order 10000 w) :
    (value (tables srv index) w).map Table.name =
      ['*'] :: (prefixes (order.take 10000)).map fun p => p ++ ":*".toList := by
  rw [tables, value_bind, value_get, after_get, value_bind, h.selected, if_neg (by simp),
    value_bind, value_scan h, value_pure]
  simp [prefixes, sorted, Function.comp_def]

theorem value_getRowCount (h : ServesScan srv index order 10000 w) (tableName : Text) :
    value (getRowCount srv index tableName) w = (order.take 10000).length := by
  unfold getRowCount
  dsimp only
  rw [value_bind, h.selected, if_neg (by simp), value_bind, value_scan h]
  rfl

/-- A database of at most 10000 keys, with a connection on which its tables are asked for and one
for each pattern that keys are listed by. -/
structure KeyGroups (g : Glob) where
  srv : Server
  index : ℤ
  keys : List Text
  nodup : keys.Nodup
  length_le : keys.length ≤ 10000
  world : World
  serves : ServesScan srv index keys 10000 world
  listing : Text → World
  servesListing : ∀ p, p ≠ [] →
    ServesScan srv index (keys.filter (g.accepts (cstr p))) 10000 (listing p)

namespace KeyGroups

variable {g : Glob} (q : KeyGroups g)

/-- The tables behind the one of all keys. -/
def groups : List Text := ((value (tables q.srv q.index) q.world).map Table.name).tail

def listed (p : Text) : List Text :=
  (value (getTableData q.srv q.index p 10000 0) (q.listing p)).map RedisKey.name

def counted (p : Text) : ℕ := value (getRowCount q.srv q.index p) (q.listing p)

/-- The key's group lists it, and no key of another group. -/
structure RightAt (k : Text) : Prop where
  group : groupPattern k ∈ q.groups
  own : k ∈ q.listed (groupPattern k)
  others : ∀ k' ∈ q.listed (groupPattern k), keyPrefix k' = keyPrefix k

/-- Every key is in its group, and the groups together list and count every key once. -/
structure Covers : Prop where
  right : ∀ k ∈ q.keys, q.RightAt k
  listed : (q.groups.flatMap q.listed).Perm q.keys
  counted : (q.groups.map q.counted).sum = q.keys.length

theorem groups_eq : q.groups = (prefixes q.keys).map fun p => p ++ ":*".toList := by
  rw [groups, names_tables q.serves, List.tail_cons, List.take_of_length_le q.length_le]

theorem length_filter_le (p : Text) : (q.keys.filter (g.accepts (cstr p))).length ≤ 10000 :=
  (List.length_filter_le _ _).trans q.length_le

theorem listed_eq {p : Text} (hp : p ≠ []) :
    q.listed p = sorted (q.keys.filter (g.accepts (cstr p))) := by
  have hnames := @names_getTableData q.srv q.index (q.listing p) _ 10000 0 (q.servesListing p hp)
    (by norm_num) p
  rw [Nat.add_zero, List.take_of_length_le (q.length_filter_le p), List.drop_zero,
    List.take_of_length_le (by rw [length_sorted]; exact q.length_filter_le p)] at hnames
  exact hnames

theorem mem_listed {p k : Text} (hp : p ≠ []) :
    k ∈ q.listed p ↔ k ∈ q.keys ∧ g.accepts (cstr p) k = true := by
  rw [q.listed_eq hp, mem_sorted, List.mem_filter]

theorem nodup_listed {p : Text} (hp : p ≠ []) : (q.listed p).Nodup := by
  rw [q.listed_eq hp]
  exact (sorted_perm _).nodup_iff.mpr (q.nodup.filter _)

theorem counted_eq {p : Text} (hp : p ≠ []) : q.counted p = (q.listed p).length := by
  rw [counted, value_getRowCount (q.servesListing p hp), q.listed_eq hp, length_sorted,
    List.take_of_length_le (q.length_filter_le p)]

theorem pattern_ne_nil (p : Text) : p ++ ":*".toList ≠ [] := by simp

theorem groupPattern_ne_nil (k : Text) : groupPattern k ≠ [] := pattern_ne_nil _

variable {q} {k : Text}

theorem groupPattern_mem (hk : k ∈ q.keys) : groupPattern k ∈ q.groups := by
  rw [q.groups_eq, groupPattern]
  refine List.mem_map_of_mem ?_
  rw [prefixes, mem_sorted, List.mem_dedup]
  exact List.mem_map_of_mem hk

theorem mem_listed_of_safe (h : Safe k) {k' : Text} : k' ∈ q.listed (groupPattern k) ↔
    k' ∈ q.keys ∧ ∃ t, k' = keyPrefix k ++ ':' :: t := by
  rw [q.mem_listed (groupPattern_ne_nil k), h.accepts_iff]

theorem rightAt_of_safe (hk : k ∈ q.keys) (h : Safe k) : q.RightAt k := by
  refine ⟨groupPattern_mem hk, (mem_listed_of_safe h).mpr ⟨hk, key_eq h.colon⟩, fun k' hk' => ?_⟩
  obtain ⟨-, t, rfl⟩ := (mem_listed_of_safe h).mp hk'
  exact keyPrefix_append colon_notMem_keyPrefix

theorem covers_of_safe (h : ∀ k ∈ q.keys, Safe k) : q.Covers := by
  have hgroup : ∀ p ∈ prefixes q.keys, ∃ k ∈ q.keys, keyPrefix k = p := fun p hp => by
    rw [prefixes, mem_sorted, List.mem_dedup] at hp
    exact List.mem_map.mp hp
  -- the group of a prefix lists the keys that have it
  have hmem : ∀ p ∈ prefixes q.keys, ∀ k, k ∈ q.listed (p ++ ":*".toList) ↔
      k ∈ q.keys ∧ keyPrefix k = p := by
    intro p hp k
    obtain ⟨k', hk', rfl⟩ := hgroup p hp
    refine (mem_listed_of_safe (h k' hk')).trans (and_congr_right fun hk => ?_)
    constructor
    · rintro ⟨t, rfl⟩
      exact keyPrefix_append colon_notMem_keyPrefix
    · intro hp
      rw [← hp]
      exact key_eq (h k hk).colon
  have hnodup : (q.groups.flatMap q.listed).Nodup := by
    rw [q.groups_eq, List.flatMap_map, List.nodup_flatMap]
    refine ⟨fun p _ => q.nodup_listed (pattern_ne_nil p), ?_⟩
    have hprefixes : (prefixes q.keys).Nodup := (sorted_perm _).nodup_iff.mpr (List.nodup_dedup _)
    refine List.Pairwise.imp_of_mem (fun {p p'} hp hp' hne k hk hk' => hne ?_) hprefixes
    exact ((hmem p hp k).mp hk).2.symm.trans ((hmem p' hp' k).mp hk').2
  have hperm : (q.groups.flatMap q.listed).Perm q.keys := by
    refine (List.perm_ext_iff_of_nodup hnodup q.nodup).mpr fun k => ?_
    rw [q.groups_eq, List.flatMap_map, List.mem_flatMap]
    constructor
    · rintro ⟨p, hp, hk⟩
      exact ((hmem p hp k).mp hk).1
    · intro hk
      have hp : keyPrefix k ∈ prefixes q.keys := by
        rw [prefixes, mem_sorted, List.mem_dedup]
        exact List.mem_map_of_mem hk
      exact ⟨keyPrefix k, hp, (hmem _ hp k).mpr ⟨hk, rfl⟩⟩
  refine ⟨fun k hk => rightAt_of_safe hk (h k hk), hperm, ?_⟩
  rw [← hperm.length_eq, List.length_flatMap]
  congr 1
  refine List.map_congr_left fun p hp => q.counted_eq ?_
  rw [q.groups_eq] at hp
  obtain ⟨p, -, rfl⟩ := List.mem_map.mp hp
  exact pattern_ne_nil p

/-- A server that answers a scan at once. -/
def scanned (keys : List Text) : World :=
  { conn := { state := { ctx := true } }, replies := [ScanReply.reply ⟨['0'], keys⟩] }

theorem serves_scanned (keys : List Text) (limit : ℕ) :
    ServesScan plainServer 0 keys limit (scanned keys) where
  idle := rfl
  selected := rfl
  scan :=
    have hend : strtoull (cstr ['0']) = 0 := by decide
    ⟨[⟨['0'], keys⟩], [], .last (List.prefix_refl _) (.inr ⟨hend, rfl⟩), rfl⟩

/-- A database of some keys. -/
def ofKeys (g : Glob) (keys : List Text) (nodup : keys.Nodup) (length_le : keys.length ≤ 10000) :
    KeyGroups g where
  srv := plainServer
  index := 0
  keys := keys
  nodup := nodup
  length_le := length_le
  world := scanned keys
  serves := serves_scanned keys 10000
  listing p := scanned (keys.filter (g.accepts (cstr p)))
  servesListing _ _ := serves_scanned _ 10000

/-- A key that is not safe is not listed as it is counted in some database. -/
theorem exists_wrong (g : Glob) (h : ¬Safe k) : ∃ q : KeyGroups g, k ∈ q.keys ∧ ¬q.RightAt k := by
  rcases misses_or_takesOther g h with hmiss | ⟨k', hk', hne⟩
  · refine ⟨ofKeys g [k] (by simp) (by simp), List.mem_singleton.mpr rfl, fun hright => ?_⟩
    have hown := ((mem_listed _ (groupPattern_ne_nil k)).mp hright.own).2
    rw [hmiss] at hown
    cases hown
  · have hdiff : k ≠ k' := fun he => hne (he ▸ rfl)
    refine ⟨ofKeys g [k, k'] (by simp [hdiff]) (by simp), List.mem_cons_self, fun hright => ?_⟩
    refine hne (hright.others k' ((mem_listed _ (groupPattern_ne_nil k)).mpr ⟨?_, hk'⟩))
    exact List.mem_cons_of_mem _ (List.mem_singleton.mpr rfl)

end KeyGroups

/-- A key is listed in its own group and there alone, whatever other keys there are, exactly where
it has a colon and what stands before it has no special character and no NUL. Of such keys the
groups list and count every one once. -/
theorem group_right_iff (g : Glob) :
    (∀ k, (∀ q : KeyGroups g, k ∈ q.keys → q.RightAt k) ↔ Safe k) ∧
      ∀ q : KeyGroups g, (∀ k ∈ q.keys, Safe k) → q.Covers := by
  refine ⟨fun k => ⟨fun h => ?_, fun h q hk => KeyGroups.rightAt_of_safe hk h⟩,
    fun q => KeyGroups.covers_of_safe⟩
  by_contra hunsafe
  obtain ⟨q, hk, hwrong⟩ := KeyGroups.exists_wrong g hunsafe
  exact hwrong (h q hk)

/-- A key without a colon, and a key whose prefix has a star. -/
def looseKeys : KeyGroups documented :=
  .ofKeys documented ["k".toList, "a*:x".toList, "ab:x".toList] (by decide) (by decide)

/-- The group of the first key does not list it, the group of the second lists the third as well. -/
theorem looseKeys_wrong : ¬looseKeys.Covers ∧ "k".toList ∉ looseKeys.listed "k:*".toList ∧
    "ab:x".toList ∈ looseKeys.listed "a*:*".toList := by
  have hk : "k".toList ∉ looseKeys.listed "k:*".toList := by
    rw [looseKeys.mem_listed (by simp)]
    simp [documented, tests, passes, cstr]
  refine ⟨fun h => hk (h.right _ List.mem_cons_self).own, hk, ?_⟩
  rw [looseKeys.mem_listed (by simp)]
  exact ⟨by decide, by simp [documented, tests, passes, cstr]⟩

end Groups
end DearSql.Redis
