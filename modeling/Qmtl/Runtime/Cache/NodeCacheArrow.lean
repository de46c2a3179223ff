import Qmtl.Runtime.Cache.NodeCache

/-!
`NodeCacheArrow`, the cache that keeps its items in Arrow columns. Its eviction by time is left out.
-/

namespace Qmtl.Runtime.Cache

open Lib Foundation

variable {P B : Type}

def sortedRanges (interval : ℕ) (items : List (Item P)) : List Seamless.Range :=
  consecutiveRanges interval ((items.map Prod.fst).dedup.insertionSort (· ≤ ·))

def fillRows (period : ℕ) (items : List (Item P)) : Option (List (Option (Item P))) :=
  if items.length ≤ period then some (items.map some ++ List.replicate (period - items.length) none) else none

structure NodeCacheArrow (B : Type) where
  slices : Dict Pair (Slice B)
  lastTs : Dict Pair (Option ℤ)
  missing : Dict Pair Bool
  filled : Dict Pair ℕ
  lastSeen : Dict Pair ℤ
  backfillState : BackfillState
  activeComputeKey : Option String
  activeWorldId : String
  activeExecutionDomain : String
  activeAsOf : Option String
  activePartition : Option String
  hits : List (String × CacheContext)

namespace NodeCacheArrow

def new : NodeCacheArrow B where
  slices := Dict.empty
  lastTs := Dict.empty
  missing := Dict.empty
  filled := Dict.empty
  lastSeen := Dict.empty
  backfillState := .empty
  activeComputeKey := none
  activeWorldId := ""
  activeExecutionDomain := defaultExecutionDomain
  activeAsOf := none
  activePartition := none
  hits := []

def ensure (c : NodeCacheArrow B) (key : Pair) : Slice B × NodeCacheArrow B :=
  match c.slices.get? key with
  | some sl => (sl, c)
  | none =>
    (Slice.new B,
      { c with
        slices := c.slices.set key (Slice.new B)
        lastTs := c.lastTs.set key none
        missing := c.missing.set key false
        filled := c.filled.set key 0
        lastSeen := c.lastSeen.set key 0 })

def clearAll (c : NodeCacheArrow B) : NodeCacheArrow B :=
  { c with
    slices := Dict.empty
    lastTs := Dict.empty
    missing := Dict.empty
    filled := Dict.empty
    lastSeen := Dict.empty
    backfillState := .empty }

def setActive (c : NodeCacheArrow B) (a : Activation) : NodeCacheArrow B :=
  { c with
    activeComputeKey := some (orDefault a.computeKey "__default__")
    activeWorldId := orDefault a.worldId ""
    activeExecutionDomain := orDefault a.executionDomain defaultExecutionDomain
    activeAsOf := a.asOf
    activePartition := a.partition }

def activateComputeKey (c : NodeCacheArrow B) (a : Activation) : NodeCacheArrow B :=
  match c.activeComputeKey with
  | none => c.setActive a
  | some active =>
    if active = orDefault a.computeKey "__default__" then c.setActive a
    else
      let hadData := !c.slices.entries.isEmpty
      let c := c.clearAll.setActive a
      if hadData then { c with hits := c.hits ++ [(a.nodeId, a.context)] } else c

lemma activateComputeKey_same {c : NodeCacheArrow B} {a : Activation}
    (h : c.activeComputeKey = none ∨ c.activeComputeKey = some a.key) : c.activateComputeKey a = c.setActive a := by
  unfold activateComputeKey
  cases hactive : c.activeComputeKey with
  | none => rfl
  | some active =>
    rw [hactive] at h
    have hkey : active = orDefault a.computeKey "__default__" := by
      rcases h with h | h
      · cases h
      · exact Option.some.inj h
    dsimp only
    rw [if_pos hkey]

lemma activateComputeKey_switch {c : NodeCacheArrow B} {a : Activation}
    (h : ¬ (c.activeComputeKey = none ∨ c.activeComputeKey = some a.key)) :
    ∃ hits, c.activateComputeKey a = { c.clearAll.setActive a with hits := hits } := by
  unfold activateComputeKey
  cases hactive : c.activeComputeKey with
  | none => exact absurd (.inl hactive) h
  | some active =>
    rw [hactive, not_or] at h
    have hkey : ¬ active = orDefault a.computeKey "__default__" := fun hkey => h.2 (congrArg some hkey)
    dsimp only
    rw [if_neg hkey]
    split
    · exact ⟨_, rfl⟩
    · exact ⟨c.hits, rfl⟩

def activeContext (c : NodeCacheArrow B) : Option CacheContext :=
  c.activeComputeKey.map fun key =>
    ⟨key, c.activeWorldId, c.activeExecutionDomain, c.activeAsOf, c.activePartition⟩

def trackAppend (c : NodeCacheArrow B) (key : Pair) (bucket : ℤ) : NodeCacheArrow B :=
  match (c.lastTs.get? key).join with
  | none => { c with missing := c.missing.set key false, lastTs := c.lastTs.set key (some bucket) }
  | some prev =>
    if bucket < prev then { c with missing := c.missing.set key false }
    else
      { c with
        missing := c.missing.set key (prev + key.2 ≠ bucket)
        lastTs := c.lastTs.set key (some bucket) }

lemma filled_trackAppend (c : NodeCacheArrow B) (key : Pair) (bucket : ℤ) :
    (c.trackAppend key bucket).filled = c.filled := by
  rw [trackAppend]
  split
  · rfl
  · split <;> rfl

def append (pickle : Pickle P B) (period : ℕ) (c : NodeCacheArrow B) (u : String) (interval : ℕ) (timestamp : ℤ)
    (payload : P) : Outcome (NodeCacheArrow B) :=
  let key := (u, interval)
  let (sl, c) := c.ensure key
  if interval = 0 then ⟨c, some .zeroDivision⟩
  else
    let bucket := bucketOf interval timestamp
    let c := c.trackAppend key bucket
    match sl.append? pickle period bucket payload with
    | none => ⟨c, some .overflow⟩
    | some sl =>
      let filled := (c.filled.get? key).getD 0
      let filled := if filled < period then filled + 1 else filled
      ⟨{ c with
          slices := c.slices.set key sl
          filled := c.filled.set key filled
          lastSeen := c.lastSeen.set key bucket }, none⟩

def mergeInto (period : ℕ) (existing : Dict ℤ P) (items : List (Item P)) : List (Item P) :=
  lastItems period (sortedItems (setDefaults existing items))

def trackBackfill (c : NodeCacheArrow B) (key : Pair) (merged : List (Item P)) : NodeCacheArrow B :=
  match merged.getLast? with
  | none => c
  | some last =>
    let c := match (c.lastTs.get? key).join with
      | none => { c with missing := c.missing.set key false }
      | some prevLast =>
        if last.1 ≠ prevLast then { c with missing := c.missing.set key (prevLast + key.2 ≠ last.1) } else c
    { c with lastTs := c.lastTs.set key (some last.1) }

def updateBackfillTracking (period : ℕ) (c : NodeCacheArrow B) (key : Pair) (merged : List (Item P)) :
    NodeCacheArrow B :=
  let c := { c with filled := c.filled.set key (min merged.length period) }
  let c := c.trackBackfill key merged
  { c with lastSeen := c.lastSeen.set key ((merged.getLast?.map Prod.fst).getD 0) }

def markBackfillRanges (c : NodeCacheArrow B) (key : Pair) (items : List (Item P)) : NodeCacheArrow B :=
  { c with
    backfillState :=
      if items = [] then c.backfillState else c.backfillState.markRanges key (sortedRanges key.2 items) }

def backfillBulk (pickle : Pickle P B) (period : ℕ) (c : NodeCacheArrow B) (u : String) (interval : ℕ)
    (items : List (Item P)) : Outcome (NodeCacheArrow B) :=
  let key := (u, interval)
  let (sl, c) := c.ensure key
  let existing := Dict.ofList (sl.getList pickle)
  match bucketize interval items with
  | none => ⟨c, some .zeroDivision⟩
  | some backfillItems =>
    let c := c.markBackfillRanges key backfillItems
    let merged := mergeInto period existing backfillItems
    match Slice.ofItems? pickle merged with
    | none => ⟨c, some .overflow⟩
    | some sl => ⟨updateBackfillTracking period { c with slices := c.slices.set key sl } key merged, none⟩

def drop (c : NodeCacheArrow B) (u : String) (interval : ℕ) : NodeCacheArrow B :=
  let key := (u, interval)
  { c with
    slices := c.slices.erase key
    lastTs := c.lastTs.erase key
    missing := c.missing.erase key
    filled := c.filled.erase key
    lastSeen := c.lastSeen.erase key }

/-! Reads -/

def ready (period : ℕ) (c : NodeCacheArrow B) : Bool :=
  !c.slices.entries.isEmpty && c.filled.values.all fun count => !(count < period)

def missingFlags (c : NodeCacheArrow B) : Dict String (Dict ℕ Bool) := byUpstream c.missing

def lastTimestamps (c : NodeCacheArrow B) : Dict String (Dict ℕ (Option ℤ)) := byUpstream c.lastTs

def watermark (c : NodeCacheArrow B) (allowedLateness : ℤ) : Option ℤ :=
  (c.lastTs.values.reduceOption.min?).map (· - allowedLateness)

def latest (pickle : Pickle P B) (c : NodeCacheArrow B) (u : String) (interval : ℕ) : Option (Item P) :=
  match c.slices.get? (u, interval) with
  | none => none
  | some sl => sl.latest pickle

def getSlice (pickle : Pickle P B) (period : ℕ) (c : NodeCacheArrow B) (u : String) (interval : ℕ)
    (count start stop : Option ℤ) : Except CacheError (Sliced P) :=
  match c.slices.get? (u, interval), count with
  | none, some _ => .ok (.items [])
  | none, none => .ok (.array [])
  | some sl, some count => .ok (.items (if count ≤ 0 then [] else newest count (sl.getList pickle)))
  | some sl, none =>
    match fillRows period (lastItems period (sl.getList pickle)) with
    | none => .error .indexError
    | some rows => .ok (.array (iselRows period rows start stop))

def viewData (pickle : Pickle P B) (c : NodeCacheArrow B) : Dict String (Dict ℕ (List (Item P))) :=
  byUpstream (c.slices.mapValues (Slice.getList pickle))

end NodeCacheArrow

end Qmtl.Runtime.Cache
