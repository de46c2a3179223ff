import Qmtl.Lib.Text

/-! The compute context of a submission: normalisation of its values, execution domains, safe mode, and
the contexts the gateway's `ComputeContextService.build` makes. -/

namespace Qmtl.Foundation

open Lib

/-! ### Values -/

inductive DowngradeReason where
  | missingAsOf | staleDecision | decisionUnavailable
  deriving DecidableEq, Repr

def DowngradeReason.value : DowngradeReason → String
  | .missingAsOf => "missing_as_of"
  | .staleDecision => "stale_decision"
  | .decisionUnavailable => "decision_unavailable"

/-- A value of a loosely typed mapping: `None`, a text, a number with its text, or something else. -/
inductive Raw where
  | none
  | str (s : String)
  | num (text : String) (zero : Bool)
  | other (truthy : Bool)
  deriving DecidableEq, Repr

def Raw.truthy : Raw → Bool
  | .none => false
  | .str s => s ≠ ""
  | .num _ zero => !zero
  | .other b => b

def Raw.or (a b : Raw) : Raw := if a.truthy then a else b

/-- A mapping; a missing key is `None`. -/
abbrev Mapping := String → Raw

def defaultExecutionDomain : String := "default"
def computeOnlyDomain : String := "backtest"

def backtestTokens : List String :=
  ["backtest", "backtesting", "compute", "computeonly", "offline", "sandbox", "validate", "validation"]

def dryrunTokens : List String :=
  ["dryrun", "dryrunmode", "papermode", "paper", "papertrade", "papertrading", "papertrader", "sim",
    "simulation", "simulated"]

def liveTokens : List String := ["live", "prod", "production"]

def shadowTokens : List String := ["shadow"]

def worldModeAliases : List (String × String) :=
  [("validate", "validate"), ("compute-only", "compute-only"), ("compute_only", "compute-only"),
    ("computeonly", "compute-only"), ("paper", "paper"), ("sim", "paper"), ("simulation", "paper"),
    ("simulated", "paper"), ("papertrade", "paper"), ("papertrading", "paper"),
    ("paper_trading", "paper"), ("live", "live"), ("active", "live"), ("shadow", "shadow")]

def canonicalWorldModeToDomain : List (String × String) :=
  [("validate", "backtest"), ("compute-only", "backtest"), ("paper", "dryrun"), ("live", "live"),
    ("shadow", "shadow")]

def normalizeContextValue : Raw → Option String
  | .none => none
  | .str s => stripped s
  | .num text _ => stripped text
  | .other _ => none

section Domains

variable (lower : Lower)

def segmentDomain (segment : String) : Option String :=
  let token := String.ofList (segment.toList.filter fun c => !(isSpace c || c = '_' || c = '-'))
  if token ∈ backtestTokens then some "backtest"
  else if token ∈ dryrunTokens then some "dryrun"
  else if token ∈ liveTokens then some "live"
  else if token ∈ shadowTokens then some "shadow"
  else none

def resolveExecutionDomain (value : Option String) : Option String :=
  value.map fun v =>
    let lowered := lower.fn v
    ((splitAt (fun c => c = '/' || c = ':') lowered).findSome? segmentDomain).getD lowered

def isMissingExecutionDomain : Option String → Bool
  | none => true
  | some value =>
    let text := strip value
    text = "" || lower.fn text = defaultExecutionDomain

structure Evaluation where
  executionDomain : String
  downgraded : Bool
  reason : Option DowngradeReason
  safeMode : Bool

def evaluateSafeMode (executionDomain asOf : Option String) : Evaluation :=
  if isMissingExecutionDomain lower executionDomain then
    ⟨computeOnlyDomain, true, some .decisionUnavailable, true⟩
  else
    let domain := lower.fn (strip (executionDomain.getD ""))
    if domain ∈ ["backtest", "dryrun"] ∧ (asOf = none ∨ asOf = some "") then
      ⟨computeOnlyDomain, true, some .missingAsOf, true⟩
    else ⟨domain, false, none, false⟩

end Domains

/-! ### Contexts -/

structure ComputeContext where
  worldId : String
  executionDomain : String
  asOf : Option String
  partition : Option String
  datasetFingerprint : Option String
  downgraded : Bool
  downgradeReason : Option DowngradeReason
  safeMode : Bool
  deriving DecidableEq, Repr

namespace ComputeContext

variable (lower : Lower)

def postInit (c : ComputeContext) : ComputeContext :=
  let ev := evaluateSafeMode lower (some c.executionDomain) c.asOf
  { c with
    executionDomain := ev.executionDomain
    downgraded := c.downgraded || ev.downgraded
    downgradeReason := c.downgradeReason.or ev.reason
    safeMode := c.safeMode || ev.safeMode }

def withWorld (c : ComputeContext) (worldId : Raw) : ComputeContext :=
  postInit lower { c with worldId := (normalizeContextValue worldId).getD "" }

def withOverrides (c : ComputeContext) (executionDomain asOf partition datasetFingerprint : Raw) : ComputeContext :=
  let domainValue := if executionDomain = .none then c.executionDomain
    else (resolveExecutionDomain lower (normalizeContextValue executionDomain)).getD ""
  let asOfValue := if asOf = .none then c.asOf else normalizeContextValue asOf
  let partitionValue := if partition = .none then c.partition else normalizeContextValue partition
  let datasetValue := if datasetFingerprint = .none then c.datasetFingerprint
    else normalizeContextValue datasetFingerprint
  let ev := evaluateSafeMode lower (if domainValue = "" then none else some domainValue) asOfValue
  postInit lower { c with
    executionDomain := ev.executionDomain
    asOf := asOfValue
    partition := partitionValue
    datasetFingerprint := datasetValue
    downgraded := ev.downgraded
    downgradeReason := ev.reason
    safeMode := ev.safeMode }

def orNone (s : String) : Option String := if s = "" then none else some s

end ComputeContext

section Build

variable (lower : Lower)

def initialContext (worldId executionDomain asOf partition datasetFingerprint : Raw) : ComputeContext :=
  let domain := resolveExecutionDomain lower (normalizeContextValue executionDomain)
  let asOfNorm := normalizeContextValue asOf
  let ev := evaluateSafeMode lower domain asOfNorm
  ComputeContext.postInit lower
    { worldId := (normalizeContextValue worldId).getD ""
      executionDomain := ev.executionDomain
      asOf := asOfNorm
      partition := normalizeContextValue partition
      datasetFingerprint := normalizeContextValue datasetFingerprint
      downgraded := ev.downgraded
      downgradeReason := ev.reason
      safeMode := ev.safeMode }

def buildStrategyComputeContext (info : Mapping) : ComputeContext :=
  initialContext lower .none (info "execution_domain") (info "as_of") (info "partition")
    ((info "dataset_fingerprint").or (info "datasetFingerprint"))

def canonicalizeWorldModeAlias : Raw → Option String
  | .str s => worldModeAliases.lookup (lower.fn (strip s))
  | _ => none

def canonicalizeWorldMode (value : Raw) : String :=
  (canonicalizeWorldModeAlias lower value).getD "validate"

def resolveWorldMode (value : Raw) : String :=
  (canonicalWorldModeToDomain.lookup (canonicalizeWorldMode lower value)).getD "backtest"

def buildWorldserviceComputeContext (worldId : String) (payload : Mapping) : ComputeContext :=
  initialContext lower (.str worldId) (.str (resolveWorldMode lower (payload "effective_mode")))
    (payload "as_of") (payload "partition")
    ((payload "dataset_fingerprint").or (payload "datasetFingerprint"))

end Build

/-! ### Contexts are normalised -/

lemma normalizeContextValue_clean {v : Raw} {s : String} (h : normalizeContextValue v = some s) : Clean s := by
  cases v with
  | none => cases h
  | str t => exact stripped_eq_some h
  | num t z => exact stripped_eq_some h
  | other b => cases h

lemma evaluateSafeMode_clean (lower : Lower) (domain asOf : Option String) :
    Clean (evaluateSafeMode lower domain asOf).executionDomain := by
  unfold evaluateSafeMode
  split
  · exact (by decide : Clean "backtest")
  · rename_i hm
    dsimp only
    split
    · exact (by decide : Clean "backtest")
    · -- the domain is there, so what is left of it without whitespace is not empty
      cases domain with
      | none => simp [isMissingExecutionDomain] at hm
      | some v =>
        simp only [isMissingExecutionDomain, Bool.or_eq_true, decide_eq_true_eq, not_or] at hm
        exact lower.clean _ ⟨hm.1, strip_strip v⟩

namespace ComputeContext

/-- No value of the context is empty or has whitespace around it. -/
structure Normalized (c : ComputeContext) : Prop where
  world : c.worldId = "" ∨ Clean c.worldId
  domain : Clean c.executionDomain
  asOf : ∀ s ∈ c.asOf, Clean s
  partition : ∀ s ∈ c.partition, Clean s
  dataset : ∀ s ∈ c.datasetFingerprint, Clean s

variable {lower : Lower} {c : ComputeContext}

lemma postInit_normalized (hw : c.worldId = "" ∨ Clean c.worldId) (ha : ∀ s ∈ c.asOf, Clean s)
    (hp : ∀ s ∈ c.partition, Clean s) (hd : ∀ s ∈ c.datasetFingerprint, Clean s) :
    (postInit lower c).Normalized := by
  unfold postInit
  exact ⟨hw, evaluateSafeMode_clean lower (some c.executionDomain) c.asOf, ha, hp, hd⟩

lemma world_clean (v : Raw) :
    (normalizeContextValue v).getD "" = "" ∨ Clean ((normalizeContextValue v).getD "") := by
  cases h : normalizeContextValue v with
  | none => exact .inl rfl
  | some s => exact .inr (normalizeContextValue_clean h)

lemma Normalized.withWorld (h : c.Normalized) (w : Raw) : (c.withWorld lower w).Normalized :=
  postInit_normalized (world_clean w) h.asOf h.partition h.dataset

lemma override_clean {old : Option String} (h : ∀ s ∈ old, Clean s) (v : Raw) :
    ∀ s ∈ (if v = .none then old else normalizeContextValue v), Clean s := by
  intro s hs
  split at hs
  · exact h s hs
  · exact normalizeContextValue_clean hs

lemma Normalized.withOverrides (h : c.Normalized) (d a p f : Raw) : (c.withOverrides lower d a p f).Normalized :=
  postInit_normalized h.world (override_clean h.asOf a) (override_clean h.partition p)
    (override_clean h.dataset f)

end ComputeContext

lemma initialContext_normalized (lower : Lower) (w d a p f : Raw) : (initialContext lower w d a p f).Normalized :=
  ComputeContext.postInit_normalized (ComputeContext.world_clean w)
    (fun _ hs => normalizeContextValue_clean hs) (fun _ hs => normalizeContextValue_clean hs)
    (fun _ hs => normalizeContextValue_clean hs)

end Qmtl.Foundation
