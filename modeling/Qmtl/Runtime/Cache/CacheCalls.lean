import Qmtl.Runtime.Cache.NodeCacheArrow

/-!
The calls of a node's cache, the runs that either cache makes of them, and what is read afterwards.
-/

namespace Qmtl.Runtime.Cache

open Lib

variable {P B : Type} {period : ℕ}

inductive CacheCall (P : Type) where
  | append (upstreamId : String) (interval : ℕ) (timestamp : ℤ) (payload : P)
  | backfillBulk (upstreamId : String) (interval : ℕ) (items : List (Item P))
  | drop (upstreamId : String) (interval : ℕ)
  | activateComputeKey (activation : Activation)

inductive CacheRead where
  | ready
  | latest (upstreamId : String) (interval : ℕ)
  | lastTimestamps
  | missingFlags
  | watermark (allowedLateness : ℤ)
  | getSlice (upstreamId : String) (interval : ℕ) (count start stop : Option ℤ)
  | ranges (upstreamId : String) (interval : ℕ)

inductive ReadResult (P : Type) where
  | ready (b : Bool)
  | latest (item : Option (Item P))
  | lastTimestamps (d : Dict String (Dict ℕ (Option ℤ)))
  | missingFlags (d : Dict String (Dict ℕ Bool))
  | watermark (t : Option ℤ)
  | slice (s : Except CacheError (Sliced P))
  | ranges (rs : List Seamless.Range)

namespace NodeCache

def call (c : NodeCache P period) : CacheCall P → Outcome (NodeCache P period)
  | .append u i t payload => c.append u i t payload
  | .backfillBulk u i items => c.backfillBulk u i items
  | .drop u i => ⟨c.drop u i, none⟩
  | .activateComputeKey a => ⟨c.activateComputeKey a, none⟩

def run (calls : List (CacheCall P)) : NodeCache P period := calls.foldl (fun c call => (c.call call).state) new

def read (c : NodeCache P period) : CacheRead → ReadResult P
  | .ready => .ready c.ready
  | .latest u i => .latest (c.latest u i)
  | .lastTimestamps => .lastTimestamps c.lastTimestamps
  | .missingFlags => .missingFlags c.missingFlags
  | .watermark lateness => .watermark (c.watermark lateness)
  | .getSlice u i count start stop => .slice (c.getSlice u i count start stop)
  | .ranges u i => .ranges (c.backfillState.rangesOf (u, i))

@[simp] lemma run_nil : (run [] : NodeCache P period) = new := rfl

lemma run_concat (calls : List (CacheCall P)) (call : CacheCall P) :
    (run (calls ++ [call]) : NodeCache P period) = ((run calls).call call).state := List.foldl_concat ..

end NodeCache

namespace NodeCacheArrow

variable (pickle : Pickle P B) (period : ℕ)

def call (c : NodeCacheArrow B) : CacheCall P → Outcome (NodeCacheArrow B)
  | .append u i t payload => c.append pickle period u i t payload
  | .backfillBulk u i items => c.backfillBulk pickle period u i items
  | .drop u i => ⟨c.drop u i, none⟩
  | .activateComputeKey a => ⟨c.activateComputeKey a, none⟩

def run (calls : List (CacheCall P)) : NodeCacheArrow B :=
  calls.foldl (fun c call => (c.call pickle period call).state) new

def read (c : NodeCacheArrow B) : CacheRead → ReadResult P
  | .ready => .ready (c.ready period)
  | .latest u i => .latest (c.latest pickle u i)
  | .lastTimestamps => .lastTimestamps c.lastTimestamps
  | .missingFlags => .missingFlags c.missingFlags
  | .watermark lateness => .watermark (c.watermark lateness)
  | .getSlice u i count start stop => .slice (c.getSlice pickle period u i count start stop)
  | .ranges u i => .ranges (c.backfillState.rangesOf (u, i))

@[simp] lemma run_nil : run pickle period [] = new := rfl

lemma run_concat (calls : List (CacheCall P)) (call : CacheCall P) :
    run pickle period (calls ++ [call]) = ((run pickle period calls).call pickle period call).state :=
  List.foldl_concat ..

end NodeCacheArrow

/-! ### What the calls say -/

namespace CacheCall

def added (pair : Pair) : CacheCall P → List (Item P)
  | append u i t payload => if (u, i) = pair ∧ i ≠ 0 then [(bucketOf i t, payload)] else []
  | backfillBulk u i items =>
    if (u, i) = pair ∧ i ≠ 0 then items.map fun e => (bucketOf i e.1, e.2) else []
  | drop _ _ => []
  | activateComputeKey _ => []

def backfilled (pair : Pair) : CacheCall P → List ℤ
  | backfillBulk u i items => if (u, i) = pair ∧ i ≠ 0 then items.map fun e => bucketOf i e.1 else []
  | append _ _ _ _ => []
  | drop _ _ => []
  | activateComputeKey _ => []

/-- Whether the buckets of a call fit the column of timestamps. -/
def FitsInt64 : CacheCall P → Prop
  | append _ i t _ => fitsInt64 (bucketOf i t) = true
  | backfillBulk _ i items => ∀ e ∈ items, fitsInt64 (bucketOf i e.1) = true
  | drop _ _ => True
  | activateComputeKey _ => True

def drops (pair : Pair) : CacheCall P → Bool
  | drop u i => (u, i) = pair
  | append _ _ _ _ => false
  | backfillBulk _ _ _ => false
  | activateComputeKey _ => false

end CacheCall

structure History (P : Type) where
  active : Option String
  since : List (CacheCall P)

namespace History

def next (h : History P) : CacheCall P → History P
  | .activateComputeKey a =>
    if h.active = none ∨ h.active = some a.key then ⟨some a.key, h.since ++ [.activateComputeKey a]⟩
    else ⟨some a.key, []⟩
  | .append u i t payload => ⟨h.active, h.since ++ [.append u i t payload]⟩
  | .backfillBulk u i items => ⟨h.active, h.since ++ [.backfillBulk u i items]⟩
  | .drop u i => ⟨h.active, h.since ++ [.drop u i]⟩

def of (calls : List (CacheCall P)) : History P := calls.foldl next ⟨none, []⟩

@[simp] lemma of_nil : of ([] : List (CacheCall P)) = ⟨none, []⟩ := rfl

lemma of_concat (calls : List (CacheCall P)) (call : CacheCall P) : of (calls ++ [call]) = (of calls).next call :=
  List.foldl_concat ..

end History

def sinceDrop (pair : Pair) (calls : List (CacheCall P)) : List (CacheCall P) :=
  calls.foldl (fun since call => if call.drops pair then [] else since ++ [call]) []

lemma sinceDrop_concat (pair : Pair) (calls : List (CacheCall P)) (call : CacheCall P) :
    sinceDrop pair (calls ++ [call]) = if call.drops pair then [] else sinceDrop pair calls ++ [call] :=
  List.foldl_concat ..

lemma mem_sinceDrop {pair : Pair} {calls : List (CacheCall P)} {call : CacheCall P} (h : call ∈ sinceDrop pair calls) :
    call ∈ calls := by
  induction calls using List.reverseRecOn with
  | nil => exact h
  | append_singleton calls last ih =>
    rw [sinceDrop_concat] at h
    split at h
    · cases h
    · rcases List.mem_append.mp h with h | h
      · exact List.mem_append_left _ (ih h)
      · exact List.mem_append_right _ h

def backfilledBy (pair : Pair) (calls : List (CacheCall P)) : List ℤ := calls.flatMap (·.backfilled pair)

@[simp] lemma backfilledBy_nil (pair : Pair) : backfilledBy pair ([] : List (CacheCall P)) = [] := rfl

lemma backfilledBy_concat (pair : Pair) (calls : List (CacheCall P)) (call : CacheCall P) :
    backfilledBy pair (calls ++ [call]) = backfilledBy pair calls ++ call.backfilled pair := by
  rw [backfilledBy, List.flatMap_append, List.flatMap_singleton, backfilledBy]

end Qmtl.Runtime.Cache
