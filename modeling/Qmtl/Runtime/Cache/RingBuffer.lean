import Qmtl.Lib.Window

/-!
The storage of one `(upstream, interval)` pair: `RingBuffer` of the in-memory cache and `_Slice` of the Arrow cache.
Both hold the last `period` items that were appended.
-/

namespace Qmtl.Runtime.Cache

open Lib

/-- `(timestamp, payload)`. -/
abbrev Item (P : Type) := ℤ × P

variable {P B : Type} {period : ℕ}

/-! ### `RingBuffer` -/

structure RingBuffer (P : Type) (period : ℕ) where
  data : List (Option (Item P))
  offset : ℕ
  filled : ℕ
  size : data.length = period
  offset_lt : offset < period
  filled_le : filled ≤ period
  offset_eq : filled < period → offset = filled
  rows : ∃ xs : List (Item P), xs.length = filled ∧ data.rotate offset = padded period xs

namespace RingBuffer

def new? (P : Type) (period : ℕ) : Option (RingBuffer P period) :=
  if h : 0 < period then
    some {
      data := List.replicate period none
      offset := 0
      filled := 0
      size := List.length_replicate
      offset_lt := h
      filled_le := Nat.zero_le period
      offset_eq := fun _ => rfl
      rows := ⟨[], rfl, by simp [padded]⟩ }
  else none

lemma pos (b : RingBuffer P period) : 0 < period := Nat.zero_lt_of_lt b.offset_lt

/-- Overwrite the oldest entry. -/
def append (b : RingBuffer P period) (timestamp : ℤ) (payload : P) : RingBuffer P period where
  data := b.data.set b.offset (some (timestamp, payload))
  offset := (b.offset + 1) % period
  filled := if b.filled < period then b.filled + 1 else b.filled
  size := by rw [List.length_set, b.size]
  offset_lt := Nat.mod_lt _ b.pos
  filled_le := by
    have := b.filled_le
    split <;> omega
  offset_eq := by
    intro h
    split at h
    · rename_i hlt
      rw [if_pos hlt, b.offset_eq hlt, Nat.mod_eq_of_lt h]
    · omega
  rows := by
    obtain ⟨xs, hfilled, hrows⟩ := b.rows
    have hle : xs.length ≤ period := hfilled ▸ b.filled_le
    refine ⟨push period xs (timestamp, payload), ?_, rotate_append b.size b.offset_lt hle hrows _⟩
    rw [length_push b.pos, hfilled]
    have := b.filled_le
    split <;> omega

/-- The rows from oldest to newest, the rows that were never written first. -/
def orderedArray (b : RingBuffer P period) : List (Option (Item P)) :=
  if b.filled < period then b.data.drop b.filled ++ b.data.take b.filled
  else b.data.drop b.offset ++ b.data.take b.offset

def items (b : RingBuffer P period) : List (Item P) := b.orderedArray.filterMap id

def latest (b : RingBuffer P period) : Option (Item P) :=
  if b.filled = 0 then none else (b.data[(b.offset + period - 1) % period]?).join

/-- Replace the contents with `items`, ordered from oldest to newest. -/
def replace (b : RingBuffer P period) (items : List (Item P)) : RingBuffer P period :=
  let trimmed := lastItems period items
  have hle : trimmed.length ≤ period := by
    rw [length_lastItems b.pos]
    exact Nat.min_le_right _ _
  { data := trimmed.map some ++ List.replicate (period - trimmed.length) none
    filled := min trimmed.length period
    offset := if min trimmed.length period = 0 then 0 else trimmed.length % period
    size := by
      rw [List.length_append, List.length_map, List.length_replicate]
      omega
    offset_lt := by
      split
      · exact b.pos
      · exact Nat.mod_lt _ b.pos
    filled_le := Nat.min_le_right _ _
    offset_eq := by
      intro h
      split
      · omega
      · rw [Nat.mod_eq_of_lt (by omega)]
        omega
    rows := by
      refine ⟨trimmed, by omega, rotate_fill hle ?_⟩
      split
      · rw [show trimmed.length = 0 by omega, Nat.zero_mod]
      · rfl }

/-! What the buffer holds, said by its items -/

lemma orderedArray_eq_rotate (b : RingBuffer P period) : b.orderedArray = b.data.rotate b.offset := by
  rw [List.rotate_eq_drop_append_take (by rw [b.size]; exact b.offset_lt.le), orderedArray]
  split
  · rename_i h
    rw [b.offset_eq h]
  · rfl

lemma items_eq {b : RingBuffer P period} {xs : List (Item P)} (h : b.data.rotate b.offset = padded period xs) :
    b.items = xs := by
  rw [items, orderedArray_eq_rotate, h, filterMap_padded]

lemma length_items (b : RingBuffer P period) : b.items.length = b.filled := by
  obtain ⟨xs, hfilled, hrows⟩ := b.rows
  rw [items_eq hrows, hfilled]

lemma orderedArray_eq (b : RingBuffer P period) : b.orderedArray = padded period b.items := by
  obtain ⟨xs, -, hrows⟩ := b.rows
  rw [items_eq hrows, orderedArray_eq_rotate, hrows]

lemma items_new {b : RingBuffer P period} (h : new? P period = some b) : b.items = [] := by
  unfold new? at h
  split at h
  · cases h
    exact List.eq_nil_of_length_eq_zero (length_items _)
  · cases h

@[simp] lemma items_append (b : RingBuffer P period) (timestamp : ℤ) (payload : P) :
    (b.append timestamp payload).items = push period b.items (timestamp, payload) := by
  have hrows : b.data.rotate b.offset = padded period b.items := by rw [← orderedArray_eq_rotate, orderedArray_eq]
  exact items_eq (rotate_append b.size b.offset_lt (b.length_items ▸ b.filled_le) hrows _)

@[simp] lemma items_replace (b : RingBuffer P period) (items : List (Item P)) :
    (b.replace items).items = lastItems period items := by
  have hlen := length_lastItems b.pos items
  refine items_eq (rotate_fill (by omega) ?_)
  dsimp only [replace]
  split
  · rw [show (lastItems period items).length = 0 by omega, Nat.zero_mod]
  · rfl

lemma latest_eq (b : RingBuffer P period) : b.latest = b.items.getLast? := by
  have hr : b.data.rotate b.offset = padded period b.items := by rw [← orderedArray_eq_rotate, orderedArray_eq]
  have hc : b.data[(b.offset + period - 1) % period]? = (padded period b.items).getLast? := by
    have hlt : b.offset < b.data.length := by
      rw [b.size]
      exact b.offset_lt
    have hl := getLast?_rotate hlt
    rw [hr, b.size] at hl
    exact hl.symm
  rw [latest, hc, ← b.length_items, padded]
  cases hit : b.items using List.reverseRecOn with
  | nil => simp
  | append_singleton xs x => simp

end RingBuffer

/-! ### `_Slice` -/

structure Pickle (P B : Type) where
  dumps : P → B
  loads : B → P
  loads_dumps : ∀ payload, loads (dumps payload) = payload

def fitsInt64 (t : ℤ) : Bool := -2 ^ 63 ≤ t && t < 2 ^ 63

/-- Two columns, the timestamps and the pickled payloads. -/
structure Slice (B : Type) where
  ts : List ℤ
  vals : List B
  aligned : ts.length = vals.length
  fits : ∀ t ∈ ts, fitsInt64 t = true

namespace Slice

def new (B : Type) : Slice B := ⟨[], [], rfl, fun _ h => absurd h List.not_mem_nil⟩

def append? (pickle : Pickle P B) (period : ℕ) (sl : Slice B) (timestamp : ℤ) (payload : P) : Option (Slice B) :=
  if hfits : fitsInt64 timestamp = true then
    let ts := sl.ts ++ [timestamp]
    let vals := sl.vals ++ [pickle.dumps payload]
    have h : ts.length = vals.length := by
      rw [List.length_append, List.length_append, sl.aligned, List.length_singleton, List.length_singleton]
    have hts : ∀ t ∈ ts, fitsInt64 t = true := by
      intro t ht
      rcases List.mem_append.mp ht with ht | ht
      · exact sl.fits t ht
      · rw [List.mem_singleton.mp ht, hfits]
    if ts.length > period then
      let start := ts.length - period
      some ⟨ts.drop start, vals.drop start, by rw [List.length_drop, List.length_drop, h],
        fun t ht => hts t (List.mem_of_mem_drop ht)⟩
    else some ⟨ts, vals, h, hts⟩
  else none

/-- The columns that `_store_backfill` writes. -/
def ofItems? (pickle : Pickle P B) (items : List (Item P)) : Option (Slice B) :=
  if hfits : ∀ e ∈ items, fitsInt64 e.1 = true then
    some {
      ts := items.map Prod.fst
      vals := items.map fun e => pickle.dumps e.2
      aligned := by rw [List.length_map, List.length_map]
      fits := List.forall_mem_map.mpr hfits }
  else none

def getList (pickle : Pickle P B) (sl : Slice B) : List (Item P) := sl.ts.zip (sl.vals.map pickle.loads)

def latest (pickle : Pickle P B) (sl : Slice B) : Option (Item P) :=
  if sl.ts.length = 0 then none
  else
    match sl.ts[sl.ts.length - 1]?, sl.vals[sl.ts.length - 1]? with
    | some ts, some val => some (ts, pickle.loads val)
    | _, _ => none

variable (pickle : Pickle P B)

lemma length_getList (sl : Slice B) : (sl.getList pickle).length = sl.ts.length := by
  rw [getList, List.length_zip, List.length_map, ← sl.aligned, Nat.min_self]

@[simp] lemma getList_new : (new B).getList pickle = [] := rfl

lemma append?_eq_some {sl sl' : Slice B} {timestamp : ℤ} {payload : P}
    (h : sl.append? pickle period timestamp payload = some sl') :
    sl'.getList pickle = push period (sl.getList pickle) (timestamp, payload) := by
  unfold append? at h
  split at h
  · have hzip : (sl.ts ++ [timestamp]).zip ((sl.vals ++ [pickle.dumps payload]).map pickle.loads) =
        sl.getList pickle ++ [(timestamp, payload)] := by
      rw [List.map_append, List.zip_append (by rw [List.length_map, sl.aligned]), List.map_singleton,
        pickle.loads_dumps, getList, List.zip_cons_cons, List.zip_nil_left]
    have hlen : (sl.ts ++ [timestamp]).length = sl.ts.length + 1 := by rw [List.length_append, List.length_singleton]
    rw [push, length_getList, ← hzip, ← hlen]
    dsimp only at h
    split at h
    · cases h
      rw [getList, List.map_drop, List.zip_eq_zipWith, List.zip_eq_zipWith, List.drop_zipWith]
    · cases h
      rw [Nat.sub_eq_zero_of_le (by omega), List.drop_zero, getList]
  · cases h

lemma append?_isSome (sl : Slice B) {timestamp : ℤ} (payload : P) (h : fitsInt64 timestamp) :
    (sl.append? pickle period timestamp payload).isSome := by
  rw [append?, dif_pos h]
  dsimp only
  split <;> rfl

lemma fits_getList (sl : Slice B) {e : Item P} (h : e ∈ sl.getList pickle) : fitsInt64 e.1 :=
  sl.fits e.1 (List.of_mem_zip h).1

lemma ofItems?_isSome {items : List (Item P)} (h : ∀ e ∈ items, fitsInt64 e.1) :
    (ofItems? pickle items).isSome := by
  rw [ofItems?, dif_pos h]
  rfl

lemma ofItems?_eq_some {items : List (Item P)} {sl : Slice B} (h : ofItems? pickle items = some sl) :
    sl.getList pickle = items := by
  unfold ofItems? at h
  split at h
  · cases h
    rw [getList, List.map_map, List.zip_map']
    refine (List.map_congr_left fun e _ => ?_).trans items.map_id
    exact Prod.ext rfl (pickle.loads_dumps e.2)
  · cases h

lemma latest_eq (sl : Slice B) : sl.latest pickle = (sl.getList pickle).getLast? := by
  rw [latest, List.getLast?_eq_getElem?, length_getList]
  split
  · rw [eq_comm, List.getElem?_eq_none_iff, length_getList]
    omega
  · have hlt : sl.ts.length - 1 < sl.ts.length := by omega
    have hlt' : sl.ts.length - 1 < sl.vals.length := by
      rw [← sl.aligned]
      exact hlt
    have hget : (sl.getList pickle)[sl.ts.length - 1]? =
        some (sl.ts[sl.ts.length - 1], pickle.loads sl.vals[sl.ts.length - 1]) := by
      rw [List.getElem?_eq_getElem (by rw [length_getList]; exact hlt)]
      simp [getList]
    rw [List.getElem?_eq_getElem hlt, List.getElem?_eq_getElem hlt', hget]

end Slice

end Qmtl.Runtime.Cache
