import DearSql.Paging
import DearSql.RedisSelection

/-! The pages of a key listing. Each page scans anew, up to the keys that end it, sorts what it has
got and shows the last of it. -/
namespace DearSql.Redis
open Effects Paging

section Scans

/-- One reply of a scan: the cursor to go on from and some keys. -/
structure ScanReply where
  cursor : Text
  keys : List Text

def ScanReply.reply (p : ScanReply) : Option Reply :=
  some (.array [.string p.cursor, .array (p.keys.map .string)])

/-- What the server answers a client that has `got` keys and asks until it has `limit`: the keys
still to come, in order, in batches as the server likes. -/
inductive Scans (limit : ℕ) : ℕ → List Text → List ScanReply → Prop
  | last {got : ℕ} {order : List Text} {p : ScanReply} (front : p.keys <+: order)
      (ends : limit ≤ got + p.keys.length ∨ (strtoull (cstr p.cursor) = 0 ∧ p.keys = order)) :
      Scans limit got order [p]
  | more {got : ℕ} {order : List Text} {p : ScanReply} {ps : List ScanReply}
      (short : got + p.keys.length < limit) (goesOn : strtoull (cstr p.cursor) ≠ 0)
      (rest : Scans limit (got + p.keys.length) order ps) : Scans limit got (p.keys ++ order) (p :: ps)

theorem takeKeys_strings {limit : ℕ} {keys ks : List Text} (h : keys.length < limit) :
    takeKeys limit keys (ks.map .string) =
      (keys ++ ks.take (limit - keys.length), decide (limit ≤ keys.length + ks.length)) := by
  induction ks generalizing keys with
  | nil => simp [takeKeys, h]
  | cons k ks ih =>
    rw [List.map_cons, takeKeys]
    have hlen : (keys ++ [k]).length = keys.length + 1 := by simp
    by_cases hend : limit ≤ keys.length + 1
    · have hone : limit - keys.length = 1 := by omega
      rw [if_pos (by rw [hlen]; exact_mod_cast hend), hone]
      simp only [List.take_succ_cons, List.take_zero, List.length_cons, Prod.mk.injEq, true_and]
      exact (decide_eq_true (by omega)).symm
    · have hsucc : limit - keys.length = limit - (keys.length + 1) + 1 := by omega
      rw [if_neg (by rw [hlen]; exact_mod_cast hend), ih (by rw [hlen]; omega), hlen, hsucc,
        List.take_succ_cons, List.append_assoc, List.singleton_append, List.length_cons]
      congr 2
      exact propext ⟨fun h => by omega, fun h => by omega⟩

variable {srv : Server} {pattern : Text} {limit : ℕ}

/-- A scan gives the keys in order, up to the limit. -/
theorem value_scanPages {ps : List ScanReply} {rest : List (Option Reply)} {order keys : List Text}
    (h : Scans limit keys.length order ps) (hkeys : keys.length < limit) {fuel cursor : ℕ}
    (hfuel : ps.length ≤ fuel) {w : World} (hw : w.unread = [])
    (hreplies : w.replies = ps.map ScanReply.reply ++ rest) :
    value (scanPages srv pattern limit fuel cursor keys) w =
      keys ++ order.take (limit - keys.length) := by
  induction ps generalizing order keys fuel cursor w with
  | nil => cases h
  | cons p ps ih =>
    obtain ⟨fuel, rfl⟩ : ∃ n, fuel = n + 1 := ⟨fuel - 1, by simp at hfuel; omega⟩
    have hreply : w.replies.head?.join = p.reply := by simp [hreplies]
    have htail : w.replies.tail = ps.map ScanReply.reply ++ rest := by simp [hreplies]
    rw [scanPages, value_bind, value_command hw, after_command hw, hreply]
    simp only [ScanReply.reply, Reply.elements, Reply.text, takeKeys_strings hkeys]
    cases h with
    | last front ends =>
      have htake : order.take (limit - keys.length) = p.keys.take (limit - keys.length) := by
        obtain ⟨more, rfl⟩ := front
        rcases ends with hlimit | ⟨-, heq⟩
        · rw [List.take_append_of_le_length (by omega)]
        · rw [← heq]
      have hzero : (if decide (limit ≤ keys.length + p.keys.length) = true then 0
          else strtoull (cstr p.cursor)) = 0 := by
        rcases ends with hlimit | ⟨hcursor, -⟩
        · rw [if_pos (decide_eq_true hlimit)]
        · rw [hcursor, ite_self]
      rw [if_pos hzero, htake]
      rfl
    | @more _ order _ _ short goesOn more =>
      have hcursor : (if decide (limit ≤ keys.length + p.keys.length) = true then 0
          else strtoull (cstr p.cursor)) = strtoull (cstr p.cursor) :=
        if_neg (by simpa using short)
      have hall : p.keys.take (limit - keys.length) = p.keys :=
        List.take_of_length_le (by omega)
      have hlen : (keys ++ p.keys).length = keys.length + p.keys.length := List.length_append
      rw [hcursor, if_neg goesOn, hall]
      rw [ih (w := w.ran srv (scanCommand cursor pattern) false) (hlen.symm ▸ more)
          (by rw [hlen]; exact short) (by simp at hfuel; omega) hw htail, hlen, List.append_assoc,
        List.take_append, hall, Nat.sub_sub]

end Scans

section Pages

variable {srv : Server} {index : ℤ} {w : World} {order : List Text} {limit offset : ℕ}

theorem names_keyDetails (names : List Text) (w : World) :
    (value (keyDetails srv names) w).map RedisKey.name = names := by
  rw [keyDetails]
  simp only [value_bind]
  obtain ⟨-, hlen, hentry⟩ :=
    readDetails_spec names (after (names.forM (detailCommands srv)) w)
  generalize value (names.mapM readDetails) _ = keys at hlen hentry
  obtain ⟨-, hlen', hentry'⟩ := readPreview_spec keys
    (after (keys.forM fun key => append srv (previewCommand key) false)
      (after (names.mapM readDetails) (after (names.forM (detailCommands srv)) w)))
  refine List.ext_getElem (by rw [List.length_map, hlen', hlen]) fun i hi hi' => ?_
  have hname := List.getElem?_eq_getElem hi'
  obtain ⟨_, hget⟩ := List.getElem?_eq_some_iff.mp (hentry' i _ (hentry i _ hname))
  rw [List.getElem_map, hget]
  rfl

theorem names_fetchKeyDetails (hat : At index w) (names : List Text) :
    (value (fetchKeyDetails srv index names) w).map RedisKey.name = names := by
  have hok : value (ensureSelectedLocked srv index) w = true := by
    simp [ensureSelectedLocked, getState, hat.1, hat.2]
  rw [fetchKeyDetails, value_bind, hok, if_neg (by simp)]
  exact names_keyDetails names _

/-- The handle's database is selected and the server answers a scan with the keys in order. -/
structure ServesScan (srv : Server) (index : ℤ) (order : List Text) (limit : ℕ) (w : World) :
    Prop where
  idle : w.unread = []
  selected : value (ensureSelectedLocked srv index) w = true
  scan : ∃ ps rest, Scans limit 0 order ps ∧
    (after (ensureSelectedLocked srv index) w).replies = ps.map ScanReply.reply ++ rest

/-- A served scan gives the keys in order, up to the limit. -/
theorem value_scanKeysLocked (h : ServesScan srv index order limit w) (hpos : 0 < limit)
    (pattern : Text) :
    value (scanKeysLocked srv pattern limit) (after (ensureSelectedLocked srv index) w) =
      order.take limit := by
  obtain ⟨ps, rest, hscan, hreplies⟩ := h.scan
  have hat := at_ensured h.idle h.selected
  have hidle := (@paired_ensureSelectedLocked srv index w).unread_nil h.idle
  rw [scanKeysLocked, value_bind, value_get, after_get, if_neg (by simp [hat.1])]
  have hfuel : ps.length ≤ (after (ensureSelectedLocked srv index) w).replies.length := by
    simp [hreplies]
  exact value_scanPages hscan hpos hfuel hidle hreplies

/-- A page shows part of the keys that the scan has got to, sorted. -/
theorem names_getTableData (h : ServesScan srv index order (limit + offset) w)
    (hpos : 0 < limit + offset) (tableName : Text) :
    (value (getTableData srv index tableName limit offset) w).map RedisKey.name =
      ((sorted (order.take (limit + offset))).drop offset).take limit := by
  have hat := at_ensured h.idle h.selected
  unfold getTableData
  dsimp only
  rw [value_bind, h.selected, if_neg (by simp), value_bind, value_scanKeysLocked h hpos]
  by_cases hend : (order.take (limit + offset)).length ≤ offset
  · rw [if_pos hend, List.drop_eq_nil_of_le (by simpa using hend)]
    simp
  · rw [if_neg hend, value_bind, value_pure, List.map_take, List.map_drop]
    congr 2
    exact names_fetchKeyDetails ((quiet_scanKeysLocked _ _ _).at hat) _

end Pages

section Paging

def INT_MAX : ℕ := 2147483647

/-- A key space listed page after page, with a connection for each page on which a scan gives the
keys in one order. -/
structure KeyPaging where
  srv : Server
  index : ℤ
  tableName : Text
  order : List Text
  nodup : order.Nodup
  size : ℕ
  pos : 0 < size
  world : ℕ → World
  serves : ∀ k, ServesScan srv index order (size + k * size) (world k)

namespace KeyPaging

variable (q : KeyPaging)

def page (k : ℕ) : List Text :=
  (value (getTableData q.srv q.index q.tableName q.size (k * q.size)) (q.world k)).map RedisKey.name

/-- Of the pages that end within an `int`, exactly one place shows each key. -/
def ListsOnce : Prop :=
  ∀ key ∈ q.order, ∃! p : ℕ × ℕ,
    (p.1 + 1) * q.size ≤ INT_MAX ∧ (q.page p.1)[p.2]? = some key

theorem page_eq (k : ℕ) : q.page k = Paging.page q.order q.size k := by
  have hpos := q.pos
  rw [page, names_getTableData (q.serves k) (by omega), Paging.page, Nat.succ_mul,
    Nat.add_comm q.size]
  refine List.take_of_length_le ?_
  rw [List.length_drop, length_sorted, List.length_take]
  omega

theorem listsOnce_iff : q.ListsOnce ↔
    q.order.length ≤ INT_MAX / q.size * q.size ∧ Ascends q.order q.size := by
  rw [← shownOnce_iff q.nodup q.pos]
  have hends : ∀ k, (k + 1) * q.size ≤ INT_MAX ↔ k < INT_MAX / q.size := fun k =>
    (Nat.le_div_iff_mul_le q.pos).symm
  simp only [ListsOnce, ShownOnce, page_eq, hends]

end KeyPaging

/-- For a page of `limit` keys from `offset` on, of `n` keys that the scan has found: the sum is an
`int` and the slice lies within the keys. -/
structure SliceSound (limit offset n : ℕ) : Prop where
  sum : limit + offset ≤ INT_MAX
  start : offset < n → offset ≤ min (offset + limit) n
  stop : min (offset + limit) n ≤ n

/-- Paging lists every key once exactly where, in scan order, every key of a page's block comes
after all keys of the blocks before; the slice is sound exactly where its end is an `int`. -/
theorem pages_once_iff (q : KeyPaging) (limit offset n : ℕ) :
    q.ListsOnce ∧ SliceSound limit offset n ↔
      (q.order.length ≤ INT_MAX / q.size * q.size ∧ Ascends q.order q.size) ∧
        limit + offset ≤ INT_MAX := by
  rw [q.listsOnce_iff]
  refine and_congr_right fun _ => ⟨SliceSound.sum, fun h => ⟨h, fun hn => ?_, min_le_right _ _⟩⟩
  exact le_min (Nat.le_add_right _ _) hn.le

/-- Two keys, scanned from the last, a page each. -/
def backwards : KeyPaging where
  srv := plainServer
  index := 0
  tableName := ['*']
  order := [['b'], ['a']]
  nodup := by decide
  size := 1
  pos := Nat.one_pos
  world _ :=
    { conn := { state := { ctx := true } }
      replies := [ScanReply.reply ⟨['0'], [['b'], ['a']]⟩] }
  serves k :=
    { idle := rfl
      selected := rfl
      scan := ⟨[⟨['0'], [['b'], ['a']]⟩], [],
        .last (List.prefix_refl _) (.inr ⟨by decide, rfl⟩), rfl⟩ }

/-- Both pages show the same key. -/
theorem backwards_repeats : backwards.page 0 = [['b']] ∧ backwards.page 1 = [['b']] ∧
    ¬backwards.ListsOnce ∧ ¬SliceSound INT_MAX 1 0 := by
  refine ⟨?_, ?_, fun h => ?_, fun h => ?_⟩
  · rw [KeyPaging.page_eq]
    decide +kernel
  · have hle : ¬(['b'] : Text) ≤ ['a'] := by decide
    rw [KeyPaging.page_eq]
    simp [backwards, Paging.page, sorted, List.mergeSort, hle]
  · have hlt := (backwards.listsOnce_iff.mp h).2 1 ['b'] (by decide) ['a'] (by decide)
    revert hlt
    decide
  · have hsum := h.sum
    revert hsum
    decide

end Paging
end DearSql.Redis
