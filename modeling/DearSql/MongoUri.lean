import DearSql.ConnectionInfo

/-! The grammar of MongoDB connection strings,
`mongodb://[user[:pass]@]host:port[/[db]][?options]`, with options only behind a `/`. -/
namespace DearSql.MongoUri

def hexValue (c : Char) : Option ℕ :=
  if '0' ≤ c ∧ c ≤ '9' then some (c.toNat - 48)
  else if 'A' ≤ c ∧ c ≤ 'F' then some (c.toNat - 55)
  else if 'a' ≤ c ∧ c ≤ 'f' then some (c.toNat - 87)
  else none

def percentDecode : Text → Option Text
  | [] => some []
  | '%' :: a :: b :: s =>
    (hexValue a).bind fun h => (hexValue b).bind fun l =>
      (percentDecode s).map (Char.ofNat (16 * h + l) :: ·)
  | c :: s => if c = '%' then none else (percentDecode s).map (c :: ·)

/-- What stands before the first `c`, and what behind it if there is one. -/
def cut (c : Char) (s : Text) : Text × Option Text :=
  (s.takeWhile (· ≠ c), if c ∈ s then some ((s.dropWhile (· ≠ c)).drop 1) else none)

/-- The parts between the occurrences of `c`. -/
def splitOn (c : Char) : Text → List Text
  | [] => [[]]
  | d :: s =>
    if d = c then [] :: splitOn c s
    else match splitOn c s with
      | [] => [[d]]
      | t :: ts => (d :: t) :: ts

structure Uri where
  username : Option Text := none
  password : Option Text := none
  host : Text
  port : Text
  database : Option Text := none
  options : List (Text × Text) := []
  deriving DecidableEq

def decodeOption (s : Text) : Option (Text × Text) :=
  (cut '=' s).2.bind fun v => (percentDecode (cut '=' s).1).bind fun k =>
    (percentDecode v).map fun v => (k, v)

/-- A part that may be missing. -/
def decodePart : Option Text → Option (Option Text)
  | none => some none
  | some s => (percentDecode s).map some

/-- The part behind the `/`: the database, if it is named, and the options. -/
def decodePath (path : Text) : Option (Option Text × List (Text × Text)) :=
  (decodePart (if (cut '?' path).1 = [] then none else some (cut '?' path).1)).bind fun db =>
    match (cut '?' path).2 with
    | none => some (db, [])
    | some o => ((splitOn '&' o).mapM decodeOption).map fun opts => (db, opts)

/-- The part before the `/`; there are no options in it. -/
def decodeAuthority (s : Text) : Option Uri :=
  if '?' ∈ s then none
  else
    let (userinfo, hostport) := match (cut '@' s).2 with
      | none => (none, s)
      | some h => (some (cut '@' s).1, h)
    (decodePart (userinfo.map fun u => (cut ':' u).1)).bind fun user =>
      (decodePart (userinfo.bind fun u => (cut ':' u).2)).bind fun pass =>
        (cut ':' hostport).2.map fun port =>
          { username := user, password := pass, host := (cut ':' hostport).1, port := port }

def parse (s : Text) : Option Uri :=
  if "mongodb://".toList.isPrefixOf s then
    (decodeAuthority (cut '/' (s.drop 10)).1).bind fun uri =>
      match (cut '/' (s.drop 10)).2 with
      | none => some uri
      | some path => (decodePath path).map fun p => { uri with database := p.1, options := p.2 }
  else none

section Reading
variable {c : Char} {s t : Text}

theorem cut_none (h : c ∉ s) : cut c s = (s, none) := by
  have ht : s.takeWhile (· ≠ c) = s :=
    List.takeWhile_eq_self_iff.mpr fun d hd => by simpa using fun he : d = c => h (he ▸ hd)
  rw [cut, ht, if_neg h]

theorem cut_append (h : c ∉ s) : cut c (s ++ c :: t) = (s, some t) := by
  have hall : ∀ d ∈ s, decide (d ≠ c) = true := fun d hd => by
    simpa using fun he : d = c => h (he ▸ hd)
  rw [cut, List.takeWhile_append_of_pos hall, List.dropWhile_append_of_pos hall]
  simp

theorem splitOn_none (h : c ∉ s) : splitOn c s = [s] := by
  induction s with
  | nil => rfl
  | cons d s ih =>
    rw [List.mem_cons, not_or] at h
    rw [splitOn, if_neg (Ne.symm h.1), ih h.2]

theorem splitOn_append (h : c ∉ s) : splitOn c (s ++ c :: t) = s :: splitOn c t := by
  induction s with
  | nil => simp [splitOn]
  | cons d s ih =>
    rw [List.mem_cons, not_or] at h
    rw [List.cons_append, splitOn, if_neg (Ne.symm h.1), ih h.2]

theorem hexValue_hexDigit : ∀ n < 16, hexValue (hexDigit n) = some n := by
  decide

/-- The bytes an encoded text is made of. -/
def plainByte (c : Char) : Bool :=
  isalnum c || c = '-' || c = '_' || c = '.' || c = '~' || c = '%'

theorem plainByte_uriEncode (v : Text) : ∀ c ∈ uriEncode v, plainByte c = true := by
  have hhex : ∀ n, plainByte (hexDigit n) = true := by
    intro n
    by_cases hn : n < 16
    · have hall : ∀ n < 16, plainByte (hexDigit n) = true := by decide
      exact hall n hn
    · rw [hexDigit, List.getD_eq_default _ _ (by simpa using hn)]
      decide
  intro c hc
  obtain ⟨d, -, hc⟩ := List.mem_flatMap.mp hc
  unfold uriEncodeByte at hc
  split_ifs at hc with hd
  · rw [List.mem_singleton.mp hc]
    simp only [plainByte, Bool.or_eq_true, decide_eq_true_eq]
    tauto
  · simp only [List.mem_cons, List.not_mem_nil, or_false] at hc
    rcases hc with rfl | rfl | rfl
    · decide
    · exact hhex _
    · exact hhex _

theorem percentDecode_uriEncode {v : Text} (hv : ∀ c ∈ v, c.toNat < 256) (rest : Text) :
    percentDecode (uriEncode v ++ rest) = (percentDecode rest).map (v ++ ·) := by
  induction v with
  | nil => simp [uriEncode]
  | cons c v ih =>
    have hc : c.toNat < 256 := hv c (by simp)
    have ih := ih fun d hd => hv d (by simp [hd])
    have hcons : uriEncode (c :: v) ++ rest = uriEncodeByte c ++ (uriEncode v ++ rest) := by
      simp [uriEncode]
    rw [hcons]
    unfold uriEncodeByte
    split_ifs with hp
    · have hne : c ≠ '%' := by
        rintro rfl
        exact absurd hp (by decide)
      rw [List.cons_append, List.nil_append, percentDecode, if_neg hne, ih, Option.map_map]
      · rfl
      · intro _ _ _ h _
        exact hne h
    · have hsum : 16 * (c.toNat / 16) + c.toNat % 16 = c.toNat := by omega
      simp only [List.cons_append, List.nil_append, percentDecode,
        hexValue_hexDigit _ (by omega : c.toNat / 16 < 16),
        hexValue_hexDigit _ (by omega : c.toNat % 16 < 16), Option.bind_some, hsum,
        Char.ofNat_toNat, ih, Option.map_map]
      rfl

theorem percentDecode_encoded {v : Text} (hv : ∀ c ∈ v, c.toNat < 256) :
    percentDecode (uriEncode v) = some v := by
  have h := percentDecode_uriEncode hv []
  rw [List.append_nil] at h
  rw [h]
  simp [percentDecode]

theorem notMem_uriEncode (h : plainByte c = false) (v : Text) : c ∉ uriEncode v := fun hc =>
  absurd (plainByte_uriEncode v c hc) (by simp [h])

theorem uriEncode_ne_nil {v : Text} (hv : v ≠ []) : uriEncode v ≠ [] := by
  obtain ⟨c, w, rfl⟩ := List.exists_cons_of_ne_nil hv
  have hone : uriEncodeByte c ≠ [] := by
    unfold uriEncodeByte
    split_ifs <;> simp
  rw [uriEncode, List.flatMap_cons]
  exact List.append_ne_nil_of_left_ne_nil hone _

end Reading

section Settings
variable {info : ConnectionInfo} {dbName : Text}

def reserved : Text := ":/?#[]@!$&'()*+,;=".toList

/-- The texts hold bytes, and the host none of the bytes with a meaning. -/
structure Plain (info : ConnectionInfo) (dbName : Text) : Prop where
  host : ∀ c ∈ info.host, c ∉ reserved
  username : ∀ c ∈ info.username, c.toNat < 256
  password : ∀ c ∈ info.password, c.toNat < 256
  target : ∀ c ∈ info.target dbName, c.toNat < 256
  sslCACertPath : ∀ c ∈ info.sslCACertPath, c.toNat < 256

/-- The modes that do not let the connection go on in clear. -/
def AsksTls : SslMode → Bool
  | .Require | .VerifyCA | .VerifyFull | .VerifyIdentity => true
  | _ => false

def given (v : Text) : Option Text := if v = [] then none else some v

/-- With a CA the server is verified; `require` without one takes any certificate. -/
def caOptions (info : ConnectionInfo) : List (Text × Text) :=
  if info.sslCACertPath ≠ [] then [("tlsCAFile".toList, info.sslCACertPath)]
  else if info.sslmode = .Require then [("tlsAllowInvalidCertificates".toList, "true".toList)]
  else []

/-- What the URI is to say. -/
def settings (info : ConnectionInfo) (dbName : Text) : Uri where
  username := given info.username
  password := given info.password
  host := info.host
  port := itoa info.port
  database := given (info.target dbName)
  options := if AsksTls info.sslmode then ("tls".toList, "true".toList) :: caOptions info else []

/-- The modes for which the code writes options. -/
abbrev WritesTls (info : ConnectionInfo) : Prop :=
  info.sslmode = .Require ∨ info.sslmode = .VerifyCA ∨ info.sslmode = .VerifyFull

def credentials (info : ConnectionInfo) : Text :=
  if info.username ≠ [] then
    uriEncode info.username ++
      (if info.password ≠ [] then ':' :: uriEncode info.password else []) ++ ['@']
  else []

def pathPart (info : ConnectionInfo) (dbName : Text) : Text :=
  if info.target dbName ≠ [] then '/' :: uriEncode (info.target dbName) else []

theorem notMem_hostPort (h : Plain info dbName) {c : Char} (hc : c ∈ reserved) (hcolon : c ≠ ':') :
    c ∉ info.hostPort := by
  intro hmem
  rcases List.mem_append.mp hmem with hmem | hmem
  · exact h.host c hmem hc
  · rcases List.mem_cons.mp hmem with rfl | hmem
    · exact hcolon rfl
    · have hall : reserved.all (fun c => c ≠ '-' && !isdigit c) = true := by decide
      have hnot := List.all_eq_true.mp hall c hc
      rcases itoa_bytes _ c hmem with h | h <;> simp [h] at hnot

theorem cut_hostPort (h : Plain info dbName) :
    cut ':' info.hostPort = (info.host, some (itoa info.port)) :=
  cut_append fun hc => h.host _ hc (by decide)

theorem decodeAuthority_eq (h : Plain info dbName) :
    decodeAuthority (credentials info ++ info.hostPort) =
      some { username := given info.username
             password := if info.username = [] then none else given info.password
             host := info.host, port := itoa info.port } := by
  have hq := notMem_hostPort h (c := '?') (by decide) (by decide)
  have hat := notMem_hostPort h (c := '@') (by decide) (by decide)
  have hcut := cut_hostPort h
  have hu := percentDecode_encoded h.username
  have hp := percentDecode_encoded h.password
  have hquery : ∀ v, '?' ∉ uriEncode v := notMem_uriEncode (by decide)
  have hats : ∀ v, '@' ∉ uriEncode v := notMem_uriEncode (by decide)
  have hcolon : ∀ v, ':' ∉ uriEncode v := notMem_uriEncode (by decide)
  unfold decodeAuthority credentials given
  by_cases hue : info.username = []
  · simp [hue, hq, cut_none hat, hcut, decodePart]
  · by_cases hpe : info.password = []
    · have hsplit : (uriEncode info.username ++ [] ++ ['@']) ++ info.hostPort =
          uriEncode info.username ++ '@' :: info.hostPort := by simp
      simp only [ne_eq, hue, hpe, not_true_eq_false, not_false_eq_true, if_true, if_false]
      rw [hsplit, cut_append (hats _)]
      simp [hq, hquery, cut_none (hcolon _), hcut, decodePart, hu]
    · have hsplit : (uriEncode info.username ++ ':' :: uriEncode info.password ++ ['@']) ++
          info.hostPort =
          (uriEncode info.username ++ ':' :: uriEncode info.password) ++ '@' :: info.hostPort := by
        simp
      have hno : '@' ∉ uriEncode info.username ++ ':' :: uriEncode info.password := by
        simp [hats]
      simp only [ne_eq, hue, hpe, not_false_eq_true, if_true, if_false]
      rw [hsplit, cut_append hno]
      simp [hq, hquery, cut_append (hcolon _), hcut, decodePart, hu, hp]

theorem decode_uriOption {key value v : Text} (heq : '=' ∉ key) (hk : percentDecode key = some key)
    (hv : percentDecode value = some v) : decodeOption (uriOption key value) = some (key, v) := by
  rw [decodeOption, uriOption, cut_append heq]
  simp [hk, hv]

theorem decode_one {a : Text} {x : Text × Text} (ha : '&' ∉ a) (hx : decodeOption a = some x) :
    (splitOn '&' a).mapM decodeOption = some [x] := by
  simp [splitOn_none ha, hx]

theorem decode_two {a b : Text} {x y : Text × Text} (ha : '&' ∉ a) (hb : '&' ∉ b)
    (hx : decodeOption a = some x) (hy : decodeOption b = some y) :
    (splitOn '&' (a ++ '&' :: b)).mapM decodeOption = some [x, y] := by
  simp [splitOn_append ha, splitOn_none hb, hx, hy]

theorem decode_mongoOptions (hca : ∀ c ∈ info.sslCACertPath, c.toNat < 256) :
    (splitOn '&' info.mongoOptions).mapM decodeOption =
      some (("tls".toList, "true".toList) :: caOptions info) := by
  have htrue : percentDecode "true".toList = some "true".toList := by decide
  have hkeys : ∀ key ∈ ["tls".toList, "tlsCAFile".toList, "tlsAllowInvalidCertificates".toList],
      '=' ∉ key ∧ '&' ∉ key ∧ percentDecode key = some key := by decide
  have hamp : ∀ key value : Text, '&' ∉ key → '&' ∉ value → '&' ∉ uriOption key value := by
    intro key value hk hv
    simp [uriOption, hk, hv]
  have htrueAmp : '&' ∉ "true".toList := by decide
  obtain ⟨h₁, h₁', h₁''⟩ := hkeys "tls".toList (by simp)
  obtain ⟨h₂, h₂', h₂''⟩ := hkeys "tlsCAFile".toList (by simp)
  obtain ⟨h₃, h₃', h₃''⟩ := hkeys "tlsAllowInvalidCertificates".toList (by simp)
  unfold ConnectionInfo.mongoOptions caOptions
  split_ifs with hc hr
  · exact decode_two (hamp _ _ h₁' htrueAmp) (hamp _ _ h₂' (notMem_uriEncode (by decide) _))
      (decode_uriOption h₁ h₁'' htrue) (decode_uriOption h₂ h₂'' (percentDecode_encoded hca))
  · exact decode_two (hamp _ _ h₁' htrueAmp) (hamp _ _ h₃' htrueAmp)
      (decode_uriOption h₁ h₁'' htrue) (decode_uriOption h₃ h₃'' htrue)
  · rw [List.append_nil]
    exact decode_one (hamp _ _ h₁' htrueAmp) (decode_uriOption h₁ h₁'' htrue)

theorem mongoString_eq (h : Plain info dbName) :
    info.mongoString dbName = "mongodb://".toList ++ (credentials info ++ info.hostPort ++
      pathPart info dbName ++ (if WritesTls info then '?' :: info.mongoOptions else [])) := by
  have hbase : info.mongoBase dbName = "mongodb://".toList ++
      (credentials info ++ info.hostPort ++ pathPart info dbName) := by
    unfold ConnectionInfo.mongoBase credentials pathPart
    simp only [List.append_assoc]
  have hno : '?' ∉ info.mongoBase dbName := by
    have hhost := notMem_hostPort h (c := '?') (by decide) (by decide)
    have henc : ∀ v, '?' ∉ uriEncode v := notMem_uriEncode (by decide)
    have hscheme : '?' ∉ "mongodb://".toList := by decide
    rw [hbase]
    simp only [List.mem_append, not_or]
    refine ⟨hscheme, ⟨?_, hhost⟩, ?_⟩
    · unfold credentials
      split_ifs <;> simp [henc]
    · unfold pathPart
      split_ifs <;> simp [henc]
  rw [ConnectionInfo.mongoString, if_neg hno, hbase]
  simp only [List.append_assoc]

/-- What the grammar makes of the string. -/
theorem parse_mongoString (h : Plain info dbName) :
    parse (info.mongoString dbName) =
      if WritesTls info ∧ info.target dbName = [] then none
      else some { settings info dbName with
        password := if info.username = [] then none else given info.password
        options := if WritesTls info then ("tls".toList, "true".toList) :: caOptions info
          else [] } := by
  have hslash : '/' ∉ credentials info ++ info.hostPort := by
    have hhost := notMem_hostPort h (c := '/') (by decide) (by decide)
    have henc : ∀ v, '/' ∉ uriEncode v := notMem_uriEncode (by decide)
    rw [List.mem_append, not_or]
    refine ⟨?_, hhost⟩
    unfold credentials
    split_ifs <;> simp [henc]
  have hscheme : "mongodb://".toList.length = 10 := by decide
  have hauth := decodeAuthority_eq h
  rw [mongoString_eq h, parse, if_pos (List.isPrefixOf_iff_prefix.mpr (List.prefix_append _ _)),
    List.drop_left' hscheme]
  generalize hA : credentials info ++ info.hostPort = A at hslash hauth ⊢
  by_cases hdb : info.target dbName = []
  · have hpath : pathPart info dbName = [] := by simp [pathPart, hdb]
    rw [hpath, List.append_nil]
    by_cases hw : WritesTls info
    · have hq : '?' ∈ (cut '/' (A ++ '?' :: info.mongoOptions)).1 := by
        have hall : ∀ d ∈ A, decide (d ≠ '/') = true := fun d hd => by
          simpa using fun he : d = '/' => hslash (he ▸ hd)
        rw [cut, List.takeWhile_append_of_pos hall]
        simp
      rw [if_pos hw, if_pos ⟨hw, hdb⟩, decodeAuthority, if_pos hq]
      rfl
    · rw [if_neg hw, if_neg fun hc => hw hc.1, List.append_nil, cut_none hslash, hauth]
      simp [settings, given, hdb, hw]
  · have hbody : A ++ pathPart info dbName ++
        (if WritesTls info then '?' :: info.mongoOptions else []) =
        A ++ '/' :: (uriEncode (info.target dbName) ++
          (if WritesTls info then '?' :: info.mongoOptions else [])) := by
      simp [pathPart, hdb]
    have hquery : '?' ∉ uriEncode (info.target dbName) := notMem_uriEncode (by decide) _
    have hpart : decodePart (if uriEncode (info.target dbName) = [] then none
        else some (uriEncode (info.target dbName))) = some (some (info.target dbName)) := by
      rw [if_neg (uriEncode_ne_nil hdb), decodePart, percentDecode_encoded h.target]
      rfl
    have hneg : ¬ (WritesTls info ∧ info.target dbName = []) := fun hc => hdb hc.2
    rw [hbody, cut_append hslash, hauth, if_neg hneg]
    by_cases hw : WritesTls info
    · have hpath : decodePath (uriEncode (info.target dbName) ++ '?' :: info.mongoOptions) =
          some (some (info.target dbName), ("tls".toList, "true".toList) :: caOptions info) := by
        rw [decodePath, cut_append hquery, hpart, Option.bind_some]
        simp only [decode_mongoOptions h.sslCACertPath, Option.map_some]
      simp only [if_pos hw, Option.bind_some, hpath, Option.map_some]
      simp [settings, given, hdb]
    · have hpath : decodePath (uriEncode (info.target dbName)) =
          some (some (info.target dbName), []) := by
        rw [decodePath, cut_none hquery, hpart]
        rfl
      simp only [if_neg hw, List.append_nil, Option.bind_some, hpath, Option.map_some]
      simp [settings, given, hdb]

/-- The URI decodes to its settings exactly when a mode that asks for TLS is written and has
a database to stand behind, and a password has a user in front. -/
theorem parse_buildConnectionString_iff (ht : info.type = .MONGODB) (h : Plain info dbName) :
    parse (info.buildConnectionString dbName) = some (settings info dbName) ↔
      (AsksTls info.sslmode = true →
        info.target dbName ≠ [] ∧ info.sslmode ≠ .VerifyIdentity) ∧
      (info.username = [] → info.password = []) := by
  have hbuild : info.buildConnectionString dbName = info.mongoString dbName := by
    simp only [ConnectionInfo.buildConnectionString, ht]
  have hasks : WritesTls info ↔ AsksTls info.sslmode = true ∧ info.sslmode ≠ .VerifyIdentity := by
    unfold WritesTls
    cases info.sslmode <;> simp [AsksTls]
  have hpass : (if info.username = [] then none else given info.password) = given info.password ↔
      (info.username = [] → info.password = []) := by
    unfold given
    split_ifs <;> simp_all
  have hopts : (if WritesTls info then ("tls".toList, "true".toList) :: caOptions info else []) =
      (if AsksTls info.sslmode then ("tls".toList, "true".toList) :: caOptions info else []) ↔
      (AsksTls info.sslmode = true → info.sslmode ≠ .VerifyIdentity) := by
    by_cases ha : AsksTls info.sslmode = true
    · by_cases hw : info.sslmode = .VerifyIdentity
      · simp [hw, hasks.not.mpr fun hc => hc.2 hw]
      · simp [ha, hw, hasks.mpr ⟨ha, hw⟩]
    · simp [ha, hasks.not.mpr fun hc => ha hc.1]
  rw [hbuild, parse_mongoString h]
  by_cases hno : WritesTls info ∧ info.target dbName = []
  · rw [if_pos hno]
    constructor
    · intro hc
      cases hc
    · rintro ⟨hc, -⟩
      exact absurd hno.2 (hc (hasks.mp hno.1).1).1
  · rw [if_neg hno]
    simp only [settings, Option.some.injEq, Uri.mk.injEq, true_and, hpass, hopts]
    constructor
    · rintro ⟨hp, ho⟩
      refine ⟨fun ha => ⟨fun hdb => ?_, ho ha⟩, hp⟩
      exact hno ⟨hasks.mpr ⟨ha, ho ha⟩, hdb⟩
    · rintro ⟨ha, hp⟩
      exact ⟨hp, fun hc => (ha hc).2⟩

end Settings

/-- A user, a database and a CA: every part is there. -/
theorem parse_full :
    parse (ConnectionInfo.buildConnectionString
      { type := .MONGODB, host := ['h'], username := ['@'], password := [':'], database := ['/']
        sslmode := .VerifyFull, sslCACertPath := ['&'] } []) =
      some (settings
        { type := .MONGODB, host := ['h'], username := ['@'], password := [':'], database := ['/']
          sslmode := .VerifyFull, sslCACertPath := ['&'] } []) :=
  (parse_buildConnectionString_iff rfl
    ⟨List.forall_mem_singleton.mpr (by decide), by simp, by simp,
      by simp [ConnectionInfo.target], by simp⟩).mpr (by decide)

/-- TLS without a database: `mongodb://h:5432?tls=true&…`. -/
theorem parse_options_without_slash :
    parse (ConnectionInfo.buildConnectionString
      { type := .MONGODB, host := ['h'], sslmode := .Require } []) ≠
      some (settings { type := .MONGODB, host := ['h'], sslmode := .Require } []) := by
  decide

end DearSql.MongoUri
