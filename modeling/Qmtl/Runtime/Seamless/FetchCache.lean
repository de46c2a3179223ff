import Mathlib.Algebra.Order.Ring.Rat
import Mathlib.Data.List.Basic
import Mathlib.Data.Rat.Defs
import Qmtl.Lib.Dict

/-! `LRUCache`: an ordered dict whose last item is the one used last, with a time to live. The clock's readings are passed in. -/

namespace Qmtl.Runtime.Seamless

open Lib

structure LruEntry (ν : Type) where
  value : ν
  expiresAt : Option ℚ

/-- The items, the one used longest ago first. -/
structure LruCache (κ ν : Type) where
  maxEntries : ℕ
  ttlSeconds : ℚ
  data : List (κ × LruEntry ν)

def LruEntry.expired {ν : Type} (e : LruEntry ν) (now : ℚ) : Bool := e.expiresAt.any (· ≤ now)

namespace LruCache

variable {κ ν : Type} [DecidableEq κ] (c : LruCache κ ν)

def find? (key : κ) : Option (LruEntry ν) := c.data.lookup key

def pop (key : κ) : LruCache κ ν := { c with data := c.data.filter fun p => p.1 ≠ key }

def push (key : κ) (e : LruEntry ν) : LruCache κ ν := { c with data := (c.pop key).data ++ [(key, e)] }

def get (key : κ) (now : ℚ) : Option ν × LruCache κ ν :=
  match c.find? key with
  | none => (none, c)
  | some e => if e.expired now then (none, c.pop key) else (some e.value, c.push key e)

def prune (now : ℚ) : LruCache κ ν := { c with data := c.data.filter fun p => !p.2.expired now }

def evict : LruCache κ ν := { c with data := c.data.drop (c.data.length - c.maxEntries) }

def expiresAt (now : ℚ) : Option ℚ := if c.ttlSeconds = 0 then none else some (now + c.ttlSeconds)

def set (key : κ) (value : ν) (now : ℚ) : LruCache κ ν := ((c.push key ⟨value, c.expiresAt now⟩).prune now).evict

variable {c}

variable {key : κ}

lemma mem_of_find? {e : LruEntry ν} (h : c.find? key = some e) : (key, e) ∈ c.data := by
  unfold find? at h
  rw [List.lookup_eq_some_iff] at h
  obtain ⟨xs, ys, hs, -⟩ := h
  rw [hs]
  exact List.mem_append_right _ List.mem_cons_self

variable {p : κ × LruEntry ν}

lemma mem_of_push {e : LruEntry ν} (h : p ∈ (c.push key e).data) : p ∈ c.data ∨ p = (key, e) := by
  rcases List.mem_append.mp h with h | h
  · exact .inl (List.mem_of_mem_filter h)
  · exact .inr (List.mem_singleton.mp h)

variable {now : ℚ}

lemma get_eq_some {v : ν} :
    (c.get key now).1 = some v ↔ ∃ e, c.find? key = some e ∧ e.expired now = false ∧ e.value = v := by
  unfold get
  cases c.find? key with
  | none => simp
  | some e => cases hexp : e.expired now <;> simp [hexp]

lemma mem_of_get (h : p ∈ (c.get key now).2.data) : p ∈ c.data := by
  unfold get at h
  cases hf : c.find? key with
  | none =>
    rw [hf] at h
    exact h
  | some e =>
    rw [hf] at h
    dsimp only at h
    split at h
    · exact List.mem_of_mem_filter h
    · rcases mem_of_push h with h | rfl
      · exact h
      · exact mem_of_find? hf

omit [DecidableEq κ] in
lemma mem_of_prune (h : p ∈ (c.prune now).data) : p ∈ c.data :=
  List.mem_of_mem_filter h

lemma mem_of_set {value : ν} (h : p ∈ (c.set key value now).data) :
    p ∈ c.data ∨ p = (key, ⟨value, c.expiresAt now⟩) :=
  mem_of_push (mem_of_prune (List.mem_of_mem_drop h))

end LruCache

/-- `SLAViolationMode`. -/
inductive Mode
  | failFast
  | partialFill
  | hold
  deriving DecidableEq

structure ViolationDetail where
  phase : String
  elapsedMs : ℚ
  budgetMs : Option ℤ
  deriving DecidableEq

/-- What of an `SLAPolicy` is read here. -/
structure SlaPolicy where
  onViolation : Mode := .failFast
  minCoverage : Option ℚ := none
  maxLagSeconds : Option ℚ := none

structure DowngradeDecision where
  mode : Mode
  reason : String
  violation : Option ViolationDetail
  coverageRatio : Option ℚ
  stalenessMs : Option ℚ
  deriving DecidableEq

structure RequestContext where
  worldId : String
  executionDomain : String
  requestedAsOf : Option String
  minCoverage : Option ℚ := none
  maxLagSeconds : Option ℚ := none
  asOf_ne : requestedAsOf ≠ some "" := by decide

def RequestContext.keyComponents (c : RequestContext) : String × String := (c.worldId, c.requestedAsOf.getD "")

/-- The metadata of a result. What neither the gate nor the cache reads is left out. -/
structure Metadata where
  interval : ℤ
  requestedRange : ℤ × ℤ
  rows : ℤ
  coverageBounds : Option (ℤ × ℤ)
  manifestUri : Option String
  artifact : Option String
  downgraded : Bool := false
  downgradeMode : Option Mode := none
  downgradeReason : Option String := none
  slaViolation : Option ViolationDetail := none
  coverageRatio : Option ℚ := none
  stalenessMs : Option ℚ := none

/-- A `SeamlessFetchResult`. -/
structure Response (F : Type) where
  frame : F
  metadata : Metadata

inductive FetchError
  | missingAsOf
  | missingArtifact
  | slaExceeded
  | failed (reason : String)
  deriving DecidableEq

/-- What `_finalize_response` ends with: an empty frame, or one with rows. -/
inductive Finalized (F : Type)
  | empty (frame : F)
  | rows (frame : F) (height : ℤ) (coverageBounds : Option (ℤ × ℤ)) (manifestUri artifact : Option String)

structure Call (F : Type) where
  nodeId : String
  start : ℤ
  stop : ℤ
  interval : ℤ
  context : RequestContext
  outcome : Except FetchError (Finalized F)
  violation : Option ViolationDetail := none
  wallMs : ℚ := 0
  getAt : ℚ := 0
  pruneAt : ℚ := 0
  setAt : ℚ := 0
  settleAt : ℚ := 0

/-! ### The key -/

/-- What a template is formatted with. -/
structure KeyValues where
  nodeId : String
  start : ℤ
  stop : ℤ
  interval : ℤ
  conformanceVersion : String
  worldId : String
  asOf : String
  executionDomain : String

def CONFORMANCE_VERSION : String := "v2"

/-- `key_template.format(**values)`, or `none` where it raises. -/
abbrev KeyTemplate := KeyValues → Option String

def templateDefault : KeyTemplate := fun v =>
  some (v.nodeId ++ ":" ++ toString v.start ++ ":" ++ toString v.stop ++ ":" ++ toString v.interval ++ ":" ++
    v.conformanceVersion ++ ":" ++ v.worldId ++ ":" ++ v.asOf)

def keyValues {F : Type} (c : Call F) : KeyValues where
  nodeId := c.nodeId
  start := c.start
  stop := c.stop
  interval := c.interval
  conformanceVersion := CONFORMANCE_VERSION
  worldId := c.context.keyComponents.1
  asOf := c.context.keyComponents.2
  executionDomain := c.context.executionDomain

def cacheKey {F : Type} (template : KeyTemplate) (c : Call F) : String :=
  match template (keyValues c) with
  | some key => key
  | none =>
    c.nodeId ++ ":" ++ toString c.start ++ ":" ++ toString c.stop ++ ":" ++ toString c.interval ++ ":" ++
      CONFORMANCE_VERSION ++ ":" ++ c.context.keyComponents.1 ++ ":" ++ c.context.keyComponents.2

def computeCoverageRatio (m : Metadata) : ℚ :=
  let start := m.requestedRange.1
  let stop := m.requestedRange.2
  let requestedSpan := max 0 (stop - start)
  if requestedSpan ≤ 0 then if m.rows > 0 then 1 else 0
  else
    let rowRatio : Option ℚ :=
      if m.interval > 0 then
        if m.rows ≤ 0 then some 0
        else some (min 1 ((m.rows : ℚ) / (max (requestedSpan / m.interval + 1) 1 : ℤ)))
      else none
    let boundsRatio : Option ℚ := m.coverageBounds.map fun bounds =>
      let overlapStart := max start bounds.1
      let overlapEnd := min stop bounds.2
      if overlapEnd > overlapStart then
        max 0 (min 1 ((max 0 (overlapEnd - overlapStart) : ℤ) / (requestedSpan : ℚ)))
      else 0
    match rowRatio, boundsRatio with
    | some r, some b => min r b
    | some r, none => r
    | none, some b => b
    | none, none => 0

def computeStalenessMs (m : Metadata) (nowMs : ℚ) : Option ℚ :=
  m.coverageBounds.map fun bounds => max (nowMs - bounds.2 * 1000) 0

def finalize {F : Type} (c : Call F) : Finalized F → Response F
  | .empty frame => ⟨frame, {
      interval := c.interval
      requestedRange := (c.start, c.stop)
      rows := 0
      coverageBounds := none
      manifestUri := none
      artifact := none }⟩
  | .rows frame height coverageBounds manifestUri artifact =>
    let metadata : Metadata := {
      interval := c.interval
      requestedRange := (c.start, c.stop)
      rows := height
      coverageBounds := coverageBounds
      manifestUri := manifestUri
      artifact := artifact }
    ⟨frame, { metadata with
      coverageRatio := some (computeCoverageRatio metadata)
      stalenessMs := computeStalenessMs metadata c.wallMs }⟩

/-! ### Decisions -/

def severity : Mode → ℕ
  | .hold => 1
  | _ => 0

def mergeDecisions (base new : Option DowngradeDecision) : Option DowngradeDecision :=
  match base, new with
  | base, none => base
  | none, new => new
  | some base, some new =>
    if severity new.mode > severity base.mode then some new
    else if severity new.mode < severity base.mode then some base
    else some {
      mode := base.mode
      reason := if new.reason = "" then base.reason else new.reason
      violation := base.violation.or new.violation
      coverageRatio := new.coverageRatio.or base.coverageRatio
      stalenessMs := new.stalenessMs.or base.stalenessMs }

def withMetrics (m : Metadata) (nowMs : ℚ) : Metadata :=
  { m with
    coverageRatio := some (m.coverageRatio.getD (computeCoverageRatio m))
    stalenessMs := m.stalenessMs.or (computeStalenessMs m nowMs) }

def evaluateSlaViolation (sla : SlaPolicy) (violation : Option ViolationDetail) (coverageRatio stalenessMs : Option ℚ) :
    Option DowngradeDecision :=
  let first : Option (Mode × String) := violation.map fun _ => (sla.onViolation, "sla_violation")
  let second : Option (Mode × String) := match sla.minCoverage, coverageRatio with
    | some least, some ratio => if ratio < least then some (.hold, "coverage_breach") else first
    | _, _ => first
  let third : Option (Mode × String) := match sla.maxLagSeconds, stalenessMs with
    | some most, some staleness => if staleness > most * 1000 then some (.hold, "freshness_breach") else second
    | _, _ => second
  third.map fun p => ⟨p.1, p.2, violation, coverageRatio, stalenessMs⟩

/-- `_live_state`: the last `as_of` of a world and a node. -/
abbrev LiveState := Dict (String × String) String

def checkAsOfProgress (compareAsOf : String → String → ℤ) (live : LiveState) (base : Option DowngradeDecision)
    (context : RequestContext) (nodeId : String) (coverageRatio stalenessMs : Option ℚ) :
    Option DowngradeDecision × LiveState :=
  match context.requestedAsOf with
  | none => (base, live)
  | some requested =>
    match live.get? (context.worldId, nodeId) with
    | none => (base, live.set (context.worldId, nodeId) requested)
    | some previous =>
      if compareAsOf requested previous < 0 then
        (mergeDecisions base (some ⟨.hold, "as_of_regression", none, coverageRatio, stalenessMs⟩), live)
      else (base, live.set (context.worldId, nodeId) requested)

def checkBounds (context : RequestContext) (decision : Option DowngradeDecision) (coverageRatio stalenessMs : Option ℚ) :
    Option DowngradeDecision :=
  let decision := match context.minCoverage, coverageRatio with
    | some least, some ratio =>
      if ratio < least then
        mergeDecisions decision (some ⟨.hold, "coverage_breach", none, coverageRatio, stalenessMs⟩)
      else decision
    | _, _ => decision
  match context.maxLagSeconds, stalenessMs with
  | some most, some staleness =>
    if staleness > most * 1000 then
      mergeDecisions decision (some ⟨.hold, "freshness_breach", none, coverageRatio, stalenessMs⟩)
    else decision
  | _, _ => decision

def domainGate (compareAsOf : String → String → ℤ) (live : LiveState) (context : RequestContext) (m : Metadata)
    (nodeId : String) (nowMs : ℚ) : Except FetchError (Metadata × Option DowngradeDecision) × LiveState :=
  if context.executionDomain = "backtest" ∨ context.executionDomain = "dryrun" then
    if context.requestedAsOf = none then (.error .missingAsOf, live)
    else if m.artifact = none ∧ m.manifestUri = none then (.error .missingArtifact, live)
    else (.ok (m, none), live)
  else if context.executionDomain = "live" ∨ context.executionDomain = "shadow" then
    let m := withMetrics m nowMs
    let (decision, live) := checkAsOfProgress compareAsOf live none context nodeId m.coverageRatio m.stalenessMs
    (.ok (m, checkBounds context decision m.coverageRatio m.stalenessMs), live)
  else (.ok (m, none), live)

def applyDowngrade (m : Metadata) (decision : DowngradeDecision) : Metadata :=
  { m with
    downgraded := true
    downgradeMode := some decision.mode
    downgradeReason := some decision.reason
    coverageRatio := decision.coverageRatio
    stalenessMs := decision.stalenessMs
    slaViolation := decision.violation }

structure Config where
  template : KeyTemplate := templateDefault
  cacheEnabled : Bool := true
  ttlMs : ℕ := 60000
  maxShards : ℕ := 256
  sla : Option SlaPolicy := none
  compareAsOf : String → String → ℤ

/-- Every violation under `FAIL_FAST` is an error. One of `backfill_wait` is raised inside the backfill, which may
retry or swallow it; a call that goes on after that, and stores the downgrade, is left out. -/
def resolveDowngrade {F : Type} (cfg : Config) (c : Call F) (m : Metadata) :
    Except FetchError (Metadata × Option DowngradeDecision) :=
  match cfg.sla with
  | none => .ok (m, none)
  | some sla =>
    if sla.onViolation = .failFast ∧ c.violation ≠ none then .error .slaExceeded
    else
      let m := withMetrics m c.wallMs
      .ok (m, evaluateSlaViolation sla c.violation m.coverageRatio m.stalenessMs)

def applySlaAndDomain {F : Type} (cfg : Config) (live : LiveState) (c : Call F) (r : Response F) :
    Except FetchError (Response F) × LiveState :=
  match resolveDowngrade cfg c r.metadata with
  | .error e => (.error e, live)
  | .ok (m, downgrade) =>
    match domainGate cfg.compareAsOf live c.context m c.nodeId c.wallMs with
    | (.error e, live) => (.error e, live)
    | (.ok (m, decision), live) =>
      match mergeDecisions downgrade decision with
      | none => (.ok ⟨r.frame, m⟩, live)
      | some final => (.ok ⟨r.frame, applyDowngrade m final⟩, live)

/-! ### The cache -/

structure CacheEntry (F : Type) where
  result : Response F
  storedBy : Call F

structure Provider (F : Type) where
  cache : Option (LruCache String (CacheEntry F))
  live : LiveState

def Provider.init {F : Type} (cfg : Config) : Provider F where
  cache := if cfg.cacheEnabled then some ⟨max 1 cfg.maxShards, (cfg.ttlMs : ℚ) / 1000, []⟩ else none
  live := .empty

def materialize {F : Type} (e : CacheEntry F) (nowMs : ℚ) : Response F :=
  ⟨e.result.frame, { e.result.metadata with
    downgraded := false
    downgradeMode := none
    downgradeReason := none
    slaViolation := none
    stalenessMs := computeStalenessMs e.result.metadata nowMs }⟩

def cacheLookup {F : Type} (p : Provider F) (key : String) (c : Call F) : Option (CacheEntry F) × Provider F :=
  match p.cache with
  | none => (none, p)
  | some cache =>
    match cache.get key c.getAt with
    | (some e, cache) => (some e, { p with cache := some cache })
    | (none, cache) => (none, { p with cache := some (cache.prune c.pruneAt) })

def cacheSnapshot {F : Type} (p : Provider F) (key : String) (c : Call F) (r : Response F) : Provider F :=
  { p with cache := p.cache.map fun cache => (cache.set key ⟨r, c⟩ c.setAt).prune c.settleAt }

def admitted {F : Type} (c : Call F) : Bool :=
  !((c.context.executionDomain = "backtest" || c.context.executionDomain = "dryrun") && c.context.requestedAsOf = none)

def Provider.fetch {F : Type} (cfg : Config) (p : Provider F) (c : Call F) :
    Except FetchError (Response F × Option (CacheEntry F)) × Provider F :=
  if admitted c then
    match cacheLookup p (cacheKey cfg.template c) c with
    | (some e, p) =>
      match applySlaAndDomain cfg p.live c (materialize e c.wallMs) with
      | (.error err, live) => (.error err, { p with live := live })
      | (.ok r, live) => (.ok (r, some e), { p with live := live })
    | (none, p) =>
      match c.outcome with
      | .error err => (.error err, p)
      | .ok outcome =>
        match applySlaAndDomain cfg p.live c (finalize c outcome) with
        | (.error err, live) => (.error err, { p with live := live })
        | (.ok r, live) => (.ok (r, none), cacheSnapshot { p with live := live } (cacheKey cfg.template c) c r)
  else (.error .missingAsOf, p)

def Provider.after {F : Type} (cfg : Config) (calls : List (Call F)) : Provider F :=
  calls.foldl (fun p c => (p.fetch cfg c).2) (Provider.init cfg)

end Qmtl.Runtime.Seamless
