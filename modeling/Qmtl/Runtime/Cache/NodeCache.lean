import Qmtl.Foundation.ComputeContext
import Qmtl.Runtime.Cache.RingBuffer
import Qmtl.Runtime.Cache.BackfillState

/-!
`NodeCache`, the in-memory cache of a node's inputs, with its context strategy and its backfill merger. A call that
raises leaves what it has written so far; times and intervals are whole seconds.
-/

namespace Qmtl.Runtime.Cache

open Lib Foundation

variable {P : Type} {period : ℕ}

/-- What a call can raise: a period of a ring buffer that is not positive, `%` by zero, a timestamp that does not fit
`pa.int64()`, or a row beyond the array. -/
inductive CacheError where
  | periodNotPositive
  | zeroDivision
  | overflow
  | indexError
  deriving DecidableEq

structure Outcome (σ : Type) where
  state : σ
  raised : Option CacheError

def bucketOf (interval : ℕ) (timestamp : ℤ) : ℤ := timestamp - timestamp % interval

def bucketize (interval : ℕ) (items : List (Item P)) : Option (List (Item P)) :=
  if interval = 0 ∧ items ≠ [] then none else some (items.map fun e => (bucketOf interval e.1, e.2))

def setDefaults (d : Dict ℤ P) (items : List (Item P)) : Dict ℤ P :=
  items.foldl (fun d e => if (d.get? e.1).isSome then d else d.set e.1 e.2) d

def sortedItems (d : Dict ℤ P) : List (Item P) := d.entries.insertionSort fun e e' => e.1 ≤ e'.1

lemma bucketize_eq_some {interval : ℕ} {items bucketed : List (Item P)} (h : bucketize interval items = some bucketed) :
    bucketed = items.map fun e => (bucketOf interval e.1, e.2) := by
  unfold bucketize at h
  split at h
  · cases h
  · exact (Option.some.inj h).symm

lemma mem_sortedItems {d : Dict ℤ P} {e : Item P} : e ∈ sortedItems d ↔ e ∈ d.entries := List.mem_insertionSort _

lemma mem_setDefaults {d : Dict ℤ P} {items : List (Item P)} {e : Item P} (h : e ∈ (setDefaults d items).entries) :
    e ∈ d.entries ∨ e ∈ items := by
  induction items generalizing d with
  | nil => exact .inl h
  | cons e' items ih =>
    rw [setDefaults, List.foldl_cons, ← setDefaults] at h
    rcases ih h with h | h
    · split at h
      · exact .inl h
      · rcases @Dict.mem_entries_update _ _ _ _ _ [e'] h with h | h
        · exact .inl h
        · exact .inr (List.mem_singleton.mp h ▸ .head _)
    · exact .inr (.tail _ h)

lemma mem_merged {existing items : List (Item P)} {e : Item P}
    (h : e ∈ lastItems period (sortedItems (setDefaults (Dict.ofList existing) items))) : e ∈ existing ∨ e ∈ items := by
  rcases mem_setDefaults (mem_sortedItems.mp ((lastItems_sublist _ _).subset h)) with h | h
  · exact .inl (Dict.mem_entries_ofList h)
  · exact .inr h

def byUpstream {ν : Type} (d : Dict Pair ν) : Dict String (Dict ℕ ν) :=
  d.entries.foldl (fun result e => result.set e.1.1 (((result.get? e.1.1).getD Dict.empty).set e.1.2 e.2)) Dict.empty

/-! ### Contexts -/

structure CacheContext where
  computeKey : String
  worldId : String
  executionDomain : String
  asOf : Option String
  partition : Option String
  deriving DecidableEq

structure Activation where
  computeKey : Option String
  nodeId : String
  worldId : Option String
  executionDomain : Option String
  asOf : Option String
  partition : Option String

def orDefault (value : Option String) (default : String) : String :=
  match value with
  | none => default
  | some v => if v = "" then default else v

namespace Activation

def key (a : Activation) : String := orDefault a.computeKey "__default__"

/-- `_normalize`. -/
def context (a : Activation) : CacheContext where
  computeKey := a.key
  worldId := orDefault a.worldId ""
  executionDomain := orDefault a.executionDomain defaultExecutionDomain
  asOf := a.asOf
  partition := a.partition

end Activation

structure ContextSwitchStrategy where
  active : Option CacheContext
  hits : List (String × CacheContext)

namespace ContextSwitchStrategy

def new : ContextSwitchStrategy := ⟨none, []⟩

def ensure (s : ContextSwitchStrategy) (a : Activation) (hadData : Bool) : ContextSwitchStrategy × Bool :=
  match s.active with
  | none => ({ s with active := some a.context }, false)
  | some active =>
    if active.computeKey = a.context.computeKey then ({ s with active := some a.context }, false)
    else
      let hits := if hadData then s.hits ++ [(a.nodeId, a.context)] else s.hits
      (⟨some a.context, hits⟩, true)

def key? (s : ContextSwitchStrategy) : Option String := s.active.map CacheContext.computeKey

lemma ensure_same {s : ContextSwitchStrategy} {a : Activation} (h : s.key? = none ∨ s.key? = some a.key)
    (hadData : Bool) : s.ensure a hadData = (⟨some a.context, s.hits⟩, false) := by
  unfold key? at h
  unfold ensure
  cases hactive : s.active with
  | none => rfl
  | some active =>
    rw [hactive, Option.map_some] at h
    have hkey : active.computeKey = a.context.computeKey := by
      rcases h with h | h
      · cases h
      · exact Option.some.inj h
    dsimp only
    rw [if_pos hkey]

lemma ensure_switch {s : ContextSwitchStrategy} {a : Activation} (h : ¬ (s.key? = none ∨ s.key? = some a.key))
    (hadData : Bool) : ∃ hits, s.ensure a hadData = (⟨some a.context, hits⟩, true) := by
  unfold key? at h
  unfold ensure
  cases hactive : s.active with
  | none => exact absurd (.inl (by rw [hactive, Option.map_none])) h
  | some active =>
    rw [hactive, Option.map_some, not_or] at h
    have hkey : ¬ active.computeKey = a.context.computeKey := fun hkey => h.2 (congrArg some hkey)
    dsimp only
    rw [if_neg hkey]
    exact ⟨_, rfl⟩

end ContextSwitchStrategy

structure BackfillMergeResult (P : Type) where
  bucketedItems : List (Item P)
  ranges : List Seamless.Range
  mergedItems : List (Item P)

def mergeBackfill (buffer : RingBuffer P period) (interval : ℕ) (items : List (Item P)) :
    Option (BackfillMergeResult P) :=
  (bucketize interval items).map fun bucketed => {
    bucketedItems := bucketed
    ranges := consecutiveRanges interval (bucketed.map Prod.fst)
    mergedItems := lastItems period (sortedItems (setDefaults (Dict.ofList buffer.items) bucketed)) }

/-! ### `NodeCache` -/

/-- What `get_slice` returns: a list of items, or the rows of an array with their places. -/
inductive Sliced (P : Type) where
  | items (items : List (Item P))
  | array (rows : List (ℕ × Option (Item P)))

def newest (count : ℤ) (items : List (Item P)) : List (Item P) := lastItems (min count.toNat items.length) items

def sliceBound (period : ℕ) (bound : Option ℤ) (default : ℤ) : ℤ :=
  let b := bound.getD default
  min period (max 0 (if b < 0 then b + period else b))

def iselRows (period : ℕ) (rows : List (Option (Item P))) (start stop : Option ℤ) : List (ℕ × Option (Item P)) :=
  ((List.range period).zip rows).filter fun e =>
    sliceBound period start 0 ≤ e.1 ∧ (e.1 : ℤ) < sliceBound period stop period

structure NodeCache (P : Type) (period : ℕ) where
  buffers : Dict Pair (RingBuffer P period)
  lastTs : Dict Pair (Option ℤ)
  missing : Dict Pair Bool
  backfillState : BackfillState
  contextStrategy : ContextSwitchStrategy

namespace NodeCache

def new : NodeCache P period := ⟨Dict.empty, Dict.empty, Dict.empty, .empty, .new⟩

def ensureBuffer (c : NodeCache P period) (key : Pair) : Option (RingBuffer P period × NodeCache P period) :=
  match c.buffers.get? key with
  | some buffer => some (buffer, c)
  | none =>
    (RingBuffer.new? P period).map fun buffer => (buffer,
      { c with
        buffers := c.buffers.set key buffer
        lastTs := c.lastTs.set key none
        missing := c.missing.set key false })

def clearAll (c : NodeCache P period) : NodeCache P period :=
  { c with buffers := Dict.empty, lastTs := Dict.empty, missing := Dict.empty, backfillState := .empty }

def activateComputeKey (c : NodeCache P period) (a : Activation) : NodeCache P period :=
  let (strategy, cleared) := c.contextStrategy.ensure a (!c.buffers.entries.isEmpty)
  let c := { c with contextStrategy := strategy }
  if cleared then c.clearAll else c

lemma activateComputeKey_same {c : NodeCache P period} {a : Activation}
    (h : c.contextStrategy.key? = none ∨ c.contextStrategy.key? = some a.key) :
    c.activateComputeKey a = { c with contextStrategy := ⟨some a.context, c.contextStrategy.hits⟩ } := by
  rw [activateComputeKey, ContextSwitchStrategy.ensure_same h]
  rfl

lemma activateComputeKey_switch {c : NodeCache P period} {a : Activation}
    (h : ¬ (c.contextStrategy.key? = none ∨ c.contextStrategy.key? = some a.key)) :
    ∃ hits, c.activateComputeKey a = { c.clearAll with contextStrategy := ⟨some a.context, hits⟩ } := by
  obtain ⟨hits, hen⟩ := ContextSwitchStrategy.ensure_switch h (!c.buffers.entries.isEmpty)
  refine ⟨hits, ?_⟩
  rw [activateComputeKey, hen]
  rfl

def trackAppend (c : NodeCache P period) (key : Pair) (bucket : ℤ) : NodeCache P period :=
  match (c.lastTs.get? key).join with
  | none => { c with missing := c.missing.set key false, lastTs := c.lastTs.set key (some bucket) }
  | some prev =>
    if bucket < prev then { c with missing := c.missing.set key false }
    else
      { c with
        missing := c.missing.set key (prev + key.2 ≠ bucket)
        lastTs := c.lastTs.set key (some bucket) }

def append (c : NodeCache P period) (upstreamId : String) (interval : ℕ) (timestamp : ℤ) (payload : P) :
    Outcome (NodeCache P period) :=
  match c.ensureBuffer (upstreamId, interval) with
  | none => ⟨c, some .periodNotPositive⟩
  | some (buffer, c) =>
    if interval = 0 then ⟨c, some .zeroDivision⟩
    else
      let bucket := bucketOf interval timestamp
      let c := c.trackAppend (upstreamId, interval) bucket
      ⟨{ c with buffers := c.buffers.set (upstreamId, interval) (buffer.append bucket payload) }, none⟩

def trackBackfill (c : NodeCache P period) (key : Pair) (mergedItems : List (Item P)) : NodeCache P period :=
  match mergedItems.getLast? with
  | none => c
  | some last =>
    let c := match (c.lastTs.get? key).join with
      | none => { c with missing := c.missing.set key false }
      | some prevLast =>
        if last.1 ≠ prevLast then { c with missing := c.missing.set key (prevLast + key.2 ≠ last.1) } else c
    { c with lastTs := c.lastTs.set key (some last.1) }

def markBackfill (c : NodeCache P period) (key : Pair) (result : BackfillMergeResult P) : NodeCache P period :=
  { c with
    backfillState :=
      if result.bucketedItems = [] then c.backfillState else c.backfillState.markRanges key result.ranges }

def backfillBulk (c : NodeCache P period) (upstreamId : String) (interval : ℕ) (items : List (Item P)) :
    Outcome (NodeCache P period) :=
  let key := (upstreamId, interval)
  match c.ensureBuffer key with
  | none => ⟨c, some .periodNotPositive⟩
  | some (buffer, c) =>
    match mergeBackfill buffer interval items with
    | none => ⟨c, some .zeroDivision⟩
    | some result =>
      let c := c.markBackfill key result
      let c := { c with buffers := c.buffers.set key (buffer.replace result.mergedItems) }
      ⟨c.trackBackfill key result.mergedItems, none⟩

def drop (c : NodeCache P period) (upstreamId : String) (interval : ℕ) : NodeCache P period :=
  let key := (upstreamId, interval)
  { c with
    buffers := c.buffers.erase key
    lastTs := c.lastTs.erase key
    missing := c.missing.erase key
    backfillState := c.backfillState.forget key }

/-! Reads -/

def ready (c : NodeCache P period) : Bool :=
  !c.buffers.entries.isEmpty && c.buffers.values.all fun buffer => !(buffer.filled < period)

def missingFlags (c : NodeCache P period) : Dict String (Dict ℕ Bool) := byUpstream c.missing

def lastTimestamps (c : NodeCache P period) : Dict String (Dict ℕ (Option ℤ)) := byUpstream c.lastTs

def watermark (c : NodeCache P period) (allowedLateness : ℤ) : Option ℤ :=
  (c.lastTs.values.reduceOption.min?).map (· - allowedLateness)

def latest (c : NodeCache P period) (upstreamId : String) (interval : ℕ) : Option (Item P) :=
  match c.buffers.get? (upstreamId, interval) with
  | none => none
  | some buffer => buffer.latest

def getSlice (c : NodeCache P period) (upstreamId : String) (interval : ℕ) (count start stop : Option ℤ) :
    Except CacheError (Sliced P) :=
  match c.buffers.get? (upstreamId, interval), count with
  | none, some _ => .ok (.items [])
  | none, none => .ok (.array [])
  | some buffer, some count => .ok (.items (if count ≤ 0 then [] else newest count buffer.items))
  | some buffer, none => .ok (.array (iselRows period buffer.orderedArray start stop))

def viewData (c : NodeCache P period) : Dict String (Dict ℕ (List (Item P))) :=
  byUpstream (c.buffers.mapValues RingBuffer.items)

end NodeCache

end Qmtl.Runtime.Cache
