import DearSql.ConnectionInfo
import DearSql.Joins

/-! libpq's grammar of connection strings: `keyword = value` pairs between blanks, a value
optionally in single quotes, a backslash before any byte of a value. The client's string
is read back as the settings it was made of. -/
namespace DearSql.Conninfo

def nameByte (c : Char) : Bool := c ≠ '=' && !isspace c

/-- A value without quotes ends at a blank, which is taken with it. -/
def plainValue : Text → Text × Text
  | [] => ([], [])
  | ['\\'] => ([], [])
  | '\\' :: c :: s => (c :: (plainValue s).1, (plainValue s).2)
  | c :: s => if isspace c then ([], s) else (c :: (plainValue s).1, (plainValue s).2)

/-- A value behind its opening quote; without a closing quote there is none. -/
def quotedValue : Text → Option (Text × Text)
  | [] => none
  | ['\\'] => none
  | '\\' :: c :: s => (quotedValue s).map fun v => (c :: v.1, v.2)
  | c :: s => if c = '\'' then some ([], s) else (quotedValue s).map fun v => (c :: v.1, v.2)

def value : Text → Option (Text × Text)
  | '\'' :: s => quotedValue s
  | s => some (plainValue s)

/-- One pair and the text behind it; a keyword needs its `=`. -/
def pair (s : Text) : Option ((Text × Text) × Text) :=
  match (s.dropWhile nameByte).dropWhile isspace with
  | '=' :: r => (value (r.dropWhile isspace)).map fun v => ((s.takeWhile nameByte, v.1), v.2)
  | _ => none

def pairs : ℕ → Text → Option (List (Text × Text))
  | 0, _ => none
  | fuel + 1, s =>
    match s.dropWhile isspace with
    | [] => some []
    | c :: r => (pair (c :: r)).bind fun p => (pairs fuel p.2).map (p.1 :: ·)

/-- `conninfo_parse`; the text is a C string, and each pair takes at least its `=`. -/
def parse (s : Text) : Option (List (Text × Text)) := pairs ((cstr s).length + 1) (cstr s)

section Reading
variable {key v rest : Text}

/-- A keyword: no blank and no `=`. -/
def Keyword (key : Text) : Prop := key ≠ [] ∧ key.all nameByte = true

instance (key : Text) : Decidable (Keyword key) :=
  inferInstanceAs (Decidable (key ≠ [] ∧ key.all nameByte = true))

theorem quotedValue_escaped (v rest : Text) :
    quotedValue (escapedLibpq v ++ '\'' :: rest) = some (v, rest) := by
  induction v with
  | nil => rfl
  | cons c v ih =>
    by_cases hc : c = '\'' ∨ c = '\\'
    · have hstep : escapedLibpq (c :: v) = '\\' :: c :: escapedLibpq v := by
        simp [escapedLibpq, hc]
      rw [hstep, List.cons_append, List.cons_append, quotedValue, ih]
      rfl
    · have hstep : escapedLibpq (c :: v) = c :: escapedLibpq v := by
        simp [escapedLibpq, hc]
      rw [not_or] at hc
      rw [hstep, List.cons_append, quotedValue, if_neg hc.1, ih]
      · rfl
      · intro h
        simp [hc.2] at h
      · intro d s h
        simp [hc.2] at h

/-- A value that needs no quotes: no blank, no backslash, no quote in front. -/
def bareByte (c : Char) : Bool := !isspace c && c ≠ '\\'

def Bare (v : Text) : Prop := v.head? ≠ some '\'' ∧ v.all bareByte = true

instance (v : Text) : Decidable (Bare v) :=
  inferInstanceAs (Decidable (v.head? ≠ some '\'' ∧ v.all bareByte = true))

theorem plainValue_bare (hv : v.all bareByte = true) (rest : Text) :
    plainValue v = (v, []) ∧ plainValue (v ++ ' ' :: rest) = (v, rest) := by
  induction v with
  | nil => exact ⟨rfl, rfl⟩
  | cons c v ih =>
    simp only [List.all_cons, Bool.and_eq_true, bareByte, Bool.not_eq_true', decide_eq_true_eq] at hv
    obtain ⟨⟨hs, hb⟩, hrest⟩ := hv
    obtain ⟨h₁, h₂⟩ := ih hrest
    have hstep : ∀ s, plainValue (c :: s) = (c :: (plainValue s).1, (plainValue s).2) := by
      intro s
      rw [plainValue, hs, if_neg (by simp)]
      · intro h
        simp [hb] at h
      · intro d t h
        simp [hb] at h
    constructor
    · rw [hstep, h₁]
    · rw [List.cons_append, hstep, h₂]

theorem pair_keyword (hk : Keyword key) {s : Text} (hs : s.dropWhile isspace = s) :
    pair (key ++ '=' :: s) = (value s).map fun v => ((key, v.1), v.2) := by
  have htake : (key ++ '=' :: s).takeWhile nameByte = key := by
    rw [List.takeWhile_append_of_pos (List.all_eq_true.mp hk.2)]
    simp [nameByte]
  have hdrop : (key ++ '=' :: s).dropWhile nameByte = '=' :: s := by
    rw [List.dropWhile_append_of_pos (List.all_eq_true.mp hk.2)]
    simp [nameByte]
  have heq : ('=' :: s).dropWhile isspace = '=' :: s := by simp [isspace]
  rw [pair, htake, hdrop, heq]
  simp [hs]

theorem pairs_blank (fuel : ℕ) (s : Text) : pairs fuel (' ' :: s) = pairs fuel s := by
  cases fuel with
  | zero => rfl
  | succ fuel => simp [pairs, isspace]

/-- The piece adds one pair to whatever follows it after a blank. -/
def Adds (piece : Text) (kv : Text × Text) : Prop :=
  piece ≠ [] ∧ ∀ fuel rest, (rest = [] ∨ ∃ r, rest = ' ' :: r) →
    pairs (fuel + 1) (piece ++ rest) = (pairs fuel rest).map (kv :: ·)

theorem pairs_keyword (hk : Keyword key) {s : Text} (hs : s.dropWhile isspace = s) (fuel : ℕ)
    {p : Text × Text} (hp : value s = some p) :
    pairs (fuel + 1) (key ++ '=' :: s) = (pairs fuel p.2).map ((key, p.1) :: ·) := by
  have hpair := pair_keyword hk hs
  obtain ⟨hne, hbytes⟩ := hk
  obtain ⟨c, key, rfl⟩ := List.exists_cons_of_ne_nil hne
  have hc : isspace c = false := by
    have := List.all_eq_true.mp hbytes c (by simp)
    simp only [nameByte, Bool.and_eq_true, Bool.not_eq_true'] at this
    exact this.2
  rw [List.cons_append] at hpair
  rw [pairs, List.cons_append, List.dropWhile_cons_of_neg (by simp [hc])]
  simp only [hpair, hp, Option.map_some, Option.bind_some]

theorem adds_quoted (hk : Keyword key) (v : Text) : Adds (libpqKeyword key v) (key, v) := by
  refine ⟨by simp [libpqKeyword], fun fuel rest _ => ?_⟩
  have hsplit : libpqKeyword key v ++ rest =
      ' ' :: (key ++ '=' :: '\'' :: (escapedLibpq v ++ '\'' :: rest)) := by
    simp [libpqKeyword, escapeLibpqValue]
  rw [hsplit, pairs_blank, pairs_keyword hk (p := (v, rest)) (by simp [isspace])]
  rw [value, quotedValue_escaped]

theorem adds_bare (hk : Keyword key) (hne : v ≠ []) (hv : Bare v) :
    Adds (plainKeyword key v) (key, v) := by
  refine ⟨by simp [plainKeyword], fun fuel rest hrest => ?_⟩
  obtain ⟨c, w, rfl⟩ := List.exists_cons_of_ne_nil hne
  have hc : isspace c = false := by
    have := List.all_eq_true.mp hv.2 c (by simp)
    simp only [bareByte, Bool.and_eq_true, Bool.not_eq_true'] at this
    exact this.1
  have hq : c ≠ '\'' := by simpa using hv.1
  have hplain : ∀ s, value ((c :: w) ++ s) = some (plainValue ((c :: w) ++ s)) := by
    intro s
    rw [List.cons_append, value]
    intro t h
    simp [hq] at h
  obtain ⟨h₁, h₂⟩ := plainValue_bare hv.2 rest.tail
  have hdrop : ∀ s, ((c :: w) ++ s).dropWhile isspace = (c :: w) ++ s := by
    intro s
    rw [List.cons_append, List.dropWhile_cons_of_neg (by simp [hc])]
  rw [plainKeyword, List.cons_append, pairs_blank, List.append_assoc, List.cons_append]
  rcases hrest with rfl | ⟨r, rfl⟩
  · rw [pairs_keyword hk (hdrop _) fuel (hplain _), List.append_nil, h₁]
  · rw [pairs_keyword hk (hdrop _) fuel (hplain _), List.tail_cons] at *
    rw [h₂, pairs_blank]

/-- Pieces one after another are read one after another. -/
theorem pairs_pieces {ps : List (Text × (Text × Text))} (h : ∀ p ∈ ps, Adds p.1 p.2 ∧ p.1.head? = some ' ')
    (fuel : ℕ) : pairs (ps.length + 1 + fuel) (ps.flatMap Prod.fst) = some (ps.map Prod.snd) := by
  induction ps with
  | nil => simp [pairs, Nat.add_comm]
  | cons p ps ih =>
    have hrest : ps.flatMap Prod.fst = [] ∨ ∃ r, ps.flatMap Prod.fst = ' ' :: r := by
      cases ps with
      | nil => exact .inl rfl
      | cons q ps =>
        obtain ⟨r, hr⟩ := List.head?_eq_some_iff.mp (h q (by simp)).2
        exact .inr ⟨r ++ ps.flatMap Prod.fst, by simp [hr]⟩
    have hfuel : (p :: ps).length + 1 + fuel = ps.length + 1 + fuel + 1 := by
      simp only [List.length_cons]
      omega
    rw [List.flatMap_cons, hfuel, (h p (by simp)).1.2 _ _ hrest, ih fun q hq => h q (by simp [hq])]
    rfl

end Reading
section Settings
variable (info : ConnectionInfo) (dbName : Text)

def optional (key value : Text) : List (Text × Text) :=
  if value ≠ [] then [(key, value)] else []

/-- The pairs the string is to hold. libpq verifies under `verify-ca` and `verify-full`. -/
def settings : List (Text × Text) :=
  [("host".toList, info.host), ("port".toList, itoa info.port),
    ("connect_timeout".toList, "10".toList),
    ("dbname".toList,
      if info.target dbName ≠ [] then info.target dbName else info.defaultDatabase)] ++
    optional "user".toList info.username ++ optional "password".toList info.password ++
    [("sslmode".toList, sslModeToString info.sslmode)] ++
    (if info.sslmode = .VerifyCA ∨ info.sslmode = .VerifyFull then
      optional "sslrootcert".toList info.sslCACertPath else [])

/-- The values are C strings. -/
structure NulFree : Prop where
  host : '\x00' ∉ info.host
  target : '\x00' ∉ info.target dbName
  username : '\x00' ∉ info.username
  password : '\x00' ∉ info.password
  sslCACertPath : '\x00' ∉ info.sslCACertPath

def quotedPiece (kv : Text × Text) : Text × (Text × Text) := (libpqKeyword kv.1 kv.2, kv)

def barePiece (kv : Text × Text) : Text × (Text × Text) := (plainKeyword kv.1 kv.2, kv)

def pieces : List (Text × (Text × Text)) :=
  [quotedPiece ("host".toList, info.host), barePiece ("port".toList, itoa info.port),
    barePiece ("connect_timeout".toList, "10".toList),
    quotedPiece ("dbname".toList,
      if info.target dbName ≠ [] then info.target dbName else info.defaultDatabase)] ++
    (optional "user".toList info.username).map quotedPiece ++
    (optional "password".toList info.password).map quotedPiece ++
    [barePiece ("sslmode".toList, sslModeToString info.sslmode)] ++
    (if info.sslmode = .VerifyCA ∨ info.sslmode = .VerifyFull then
      (optional "sslrootcert".toList info.sslCACertPath).map quotedPiece else [])

theorem pieces_settings : (pieces info dbName).map Prod.snd = settings info dbName := by
  have hq : ∀ l : List (Text × Text), (l.map quotedPiece).map Prod.snd = l := by
    intro l
    simp [quotedPiece, Function.comp_def]
  unfold pieces settings
  split_ifs <;> simp [hq, quotedPiece, barePiece]

theorem optional_text (key value : Text) :
    ((optional key value).map quotedPiece).flatMap Prod.fst =
      if value ≠ [] then libpqKeyword key value else [] := by
  unfold optional
  split_ifs <;> simp [quotedPiece]

theorem optional_text_if (c : Prop) [Decidable c] (key value : Text) :
    (if c then (optional key value).map quotedPiece else []).flatMap Prod.fst =
      if c ∧ value ≠ [] then libpqKeyword key value else [] := by
  by_cases hc : c
  · simp only [hc, if_true, true_and, optional_text]
  · simp only [hc, if_false, false_and, List.flatMap_nil]

theorem pieces_flatMap (k₁ k₂ k₃ k₄ k₅ k₆ k₇ k₈ v₁ v₂ v₃ v₄ v₅ v₆ v₇ v₈ : Text) (c : Prop)
    [Decidable c] :
    ([quotedPiece (k₁, v₁), barePiece (k₂, v₂), barePiece (k₃, v₃), quotedPiece (k₄, v₄)] ++
        (optional k₅ v₅).map quotedPiece ++ (optional k₆ v₆).map quotedPiece ++
        [barePiece (k₇, v₇)] ++
        (if c then (optional k₈ v₈).map quotedPiece else [])).flatMap Prod.fst =
      ' ' :: (k₁ ++ '=' :: escapeLibpqValue v₁ ++ plainKeyword k₂ v₂ ++ plainKeyword k₃ v₃ ++
        libpqKeyword k₄ v₄ ++ (if v₅ ≠ [] then libpqKeyword k₅ v₅ else []) ++
        (if v₆ ≠ [] then libpqKeyword k₆ v₆ else []) ++ plainKeyword k₇ v₇ ++
        (if c ∧ v₈ ≠ [] then libpqKeyword k₈ v₈ else [])) := by
  simp only [List.flatMap_append, optional_text, optional_text_if]
  simp [quotedPiece, barePiece, libpqKeyword]

theorem pieces_text :
    (pieces info dbName).flatMap Prod.fst = ' ' :: info.postgresString dbName :=
  pieces_flatMap _ _ _ _ _ _ _ _ _ _ _ _ _ _ _ _ _

def keywords : List Text :=
  ["host".toList, "port".toList, "connect_timeout".toList, "dbname".toList, "user".toList,
    "password".toList, "sslmode".toList, "sslrootcert".toList]

theorem keyword_of_mem : ∀ key ∈ keywords, Keyword key ∧ '\x00' ∉ key := by
  decide

theorem bare_itoa (n : ℤ) : itoa n ≠ [] ∧ Bare (itoa n) := by
  have hbyte : ∀ c ∈ itoa n, isspace c = false ∧ c ≠ '\\' ∧ c ≠ '\'' := by
    intro c hc
    rcases itoa_bytes n c hc with rfl | hd
    · decide
    · refine ⟨?_, ?_, ?_⟩
      · by_contra hs
        simp only [isspace, Bool.or_eq_true, decide_eq_true_eq, Bool.not_eq_false] at hs
        rcases hs with ((((rfl | rfl) | rfl) | rfl) | rfl) | rfl <;> exact absurd hd (by decide)
      · rintro rfl
        exact absurd hd (by decide)
      · rintro rfl
        exact absurd hd (by decide)
  have hne : itoa n ≠ [] := by
    cases n with
    | ofNat m => exact Nat.toDigits_ne_nil
    | negSucc m => exact List.cons_ne_nil _ _
  refine ⟨hne, ?_, List.all_eq_true.mpr fun c hc => ?_⟩
  swap
  · simp [bareByte, hbyte c hc]
  intro h
  exact (hbyte '\'' (List.mem_of_mem_head? (Option.mem_def.mpr h))).2.2 rfl

theorem nulFree_itoa (n : ℤ) : '\x00' ∉ itoa n := fun h => by
  rcases itoa_bytes n _ h with h | h <;> exact absurd h (by decide)

theorem bare_sslMode (m : SslMode) :
    sslModeToString m ≠ [] ∧ Bare (sslModeToString m) ∧ '\x00' ∉ sslModeToString m := by
  cases m <;> decide

variable {info dbName}

/-- What holds of each piece holds of every quoted pair and of every bare one. -/
theorem forall_pieces (h : NulFree info dbName) {P : Text × (Text × Text) → Prop}
    (hq : ∀ key ∈ keywords, ∀ value, '\x00' ∉ value → P (quotedPiece (key, value)))
    (hb : ∀ key ∈ keywords, ∀ value, value ≠ [] → Bare value → '\x00' ∉ value →
      P (barePiece (key, value))) : ∀ p ∈ pieces info dbName, P p := by
  have hk : ∀ i (hi : i < keywords.length), keywords[i] ∈ keywords := fun i hi => List.getElem_mem hi
  have ho : ∀ key ∈ keywords, ∀ value, '\x00' ∉ value →
      ∀ p ∈ (optional key value).map quotedPiece, P p := by
    intro key hkey value hv p hp
    unfold optional at hp
    split_ifs at hp
    · simp only [List.map_cons, List.map_nil, List.mem_singleton] at hp
      exact hp ▸ hq key hkey value hv
    · simp at hp
  have hdb : '\x00' ∉ (if info.target dbName ≠ [] then info.target dbName
      else info.defaultDatabase) := by
    split_ifs
    · exact h.target
    · unfold ConnectionInfo.defaultDatabase
      cases info.type <;> decide
  intro p hp
  simp only [pieces, List.mem_append, List.mem_cons, List.not_mem_nil, or_false] at hp
  rcases hp with ((((rfl | rfl | rfl | rfl) | hp) | hp) | rfl) | hp
  · exact hq _ (hk 0 (by decide)) _ h.host
  · exact hb _ (hk 1 (by decide)) _ (bare_itoa _).1 (bare_itoa _).2 (nulFree_itoa _)
  · exact hb _ (hk 2 (by decide)) _ (by decide) (by decide) (by decide)
  · exact hq _ (hk 3 (by decide)) _ hdb
  · exact ho _ (hk 4 (by decide)) _ h.username p hp
  · exact ho _ (hk 5 (by decide)) _ h.password p hp
  · obtain ⟨hne, hbare, hnul⟩ := bare_sslMode info.sslmode
    exact hb _ (hk 6 (by decide)) _ hne hbare hnul
  · split_ifs at hp
    · exact ho _ (hk 7 (by decide)) _ h.sslCACertPath p hp
    · simp at hp

theorem adds_pieces (h : NulFree info dbName) :
    ∀ p ∈ pieces info dbName, Adds p.1 p.2 ∧ p.1.head? = some ' ' :=
  forall_pieces h (fun key hkey value _ => ⟨adds_quoted (keyword_of_mem key hkey).1 value, rfl⟩)
    fun key hkey _ hne hbare _ => ⟨adds_bare (keyword_of_mem key hkey).1 hne hbare, rfl⟩

theorem nulFree_escapedLibpq {v : Text} (hv : '\x00' ∉ v) : '\x00' ∉ escapedLibpq v := by
  intro h
  obtain ⟨c, hc, h⟩ := List.mem_flatMap.mp h
  split_ifs at h
  · rcases List.mem_cons.mp h with h | h
    · exact absurd h (by decide)
    · exact hv (List.mem_singleton.mp h ▸ hc)
  · exact hv (List.mem_singleton.mp h ▸ hc)

theorem nulFree_string (h : NulFree info dbName) : '\x00' ∉ info.postgresString dbName := by
  have hpieces : ∀ p ∈ pieces info dbName, '\x00' ∉ p.1 := by
    apply forall_pieces h (P := fun p => '\x00' ∉ p.1)
    · intro key hkey value hv
      have hk := (keyword_of_mem key hkey).2
      simp [quotedPiece, libpqKeyword, escapeLibpqValue, hk, nulFree_escapedLibpq hv]
    · intro key hkey value _ _ hv
      have hk := (keyword_of_mem key hkey).2
      simp [barePiece, plainKeyword, hk, hv]
  intro hmem
  have hall : '\x00' ∈ (pieces info dbName).flatMap Prod.fst := by
    rw [pieces_text]
    exact List.mem_cons_of_mem _ hmem
  obtain ⟨p, hp, hc⟩ := List.mem_flatMap.mp hall
  exact hpieces p hp hc

/-- The string built for a PostgreSQL server decodes to its settings. -/
theorem parse_buildConnectionString (ht : isPostgresFamily info.type = true)
    (h : NulFree info dbName) :
    parse (info.buildConnectionString dbName) = some (settings info dbName) := by
  have hbuild : info.buildConnectionString dbName = info.postgresString dbName := by
    unfold ConnectionInfo.buildConnectionString
    cases htype : info.type <;> simp_all [isPostgresFamily]
  have hcstr : cstr (info.postgresString dbName) = info.postgresString dbName :=
    List.takeWhile_eq_self_iff.mpr fun c hc => by
      have : c ≠ '\x00' := fun he => nulFree_string h (he ▸ hc)
      simpa using this
  have hadds := adds_pieces h
  have hlen : (pieces info dbName).length ≤ (info.postgresString dbName).length := by
    set ps := (pieces info dbName).tail with hps
    have hcons : pieces info dbName = quotedPiece ("host".toList, info.host) :: ps := rfl
    have hrest : ps.length ≤ (ps.flatMap Prod.fst).length := Joins.length_le_flatMap fun p hp =>
      (hadds p (hcons ▸ List.mem_cons_of_mem _ hp)).1.1
    have htext := congrArg List.length (pieces_text info dbName)
    rw [hcons, List.flatMap_cons, List.length_append] at htext
    simp only [quotedPiece, libpqKeyword, List.length_cons, List.length_append] at htext
    rw [hcons, List.length_cons]
    omega
  have hpairs := pairs_pieces hadds
    ((info.postgresString dbName).length - (pieces info dbName).length)
  have hfuel : (pieces info dbName).length + 1 +
      ((info.postgresString dbName).length - (pieces info dbName).length) =
      (info.postgresString dbName).length + 1 := by omega
  rw [hfuel, pieces_text, pairs_blank, pieces_settings] at hpairs
  rw [hbuild, parse, hcstr, hpairs]

/-- A host with a quote, a backslash and a blank. -/
theorem parse_awkward_host :
    parse (ConnectionInfo.buildConnectionString
      { type := .POSTGRESQL, host := ['\'', '\\', ' '], sslmode := .VerifyFull
        sslCACertPath := ['='] } []) =
      some (settings { type := .POSTGRESQL, host := ['\'', '\\', ' '], sslmode := .VerifyFull
                       sslCACertPath := ['='] } []) :=
  parse_buildConnectionString rfl ⟨by decide, by decide, by decide, by decide, by decide⟩

end Settings
end DearSql.Conninfo
