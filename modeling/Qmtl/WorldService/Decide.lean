import Qmtl.Foundation.ComputeContext
import Qmtl.Lib.Except
import Qmtl.Lib.PyValue

/-! `WorldService.decide`: the mode of a world, from its bindings, its decisions and the metadata of its history. -/

namespace Qmtl.WorldService.Decide

open Lib Foundation

/-! ### Answers -/

inductive Exn where
  | http (status : ℕ) (detail : String)
  | raised (e : Lib.Raised)
  | validation (message : String)

structure Artifact where
  datasetFingerprint : Option String
  asOf : Option String
  rows : Option ℤ
  uri : Option String

structure Metadata where
  datasetFingerprint : Option String
  asOf : Option String
  historyUpdatedAt : Option Value
  rows : Option Value
  coverageBounds : Option (List ℤ)
  conformanceFlags : Option (List (Value × Value))
  conformanceWarnings : Option (List String)
  artifact : Option Artifact

def Metadata.empty : Metadata := ⟨none, none, none, none, none, none, none, none⟩

structure DecisionEnvelope where
  worldId : String
  policyVersion : ℤ
  effectiveMode : String
  reason : String
  asOf : String
  ttl : String
  etag : String
  metadata : Metadata

/-- The built-ins, the parts of `datetime` that are used, and the checks of the pydantic models. -/
structure Env where
  builtins : Builtins
  fromisoformat : String → Option ℤ
  isoformat : ℤ → String
  validateArtifact : List (Value × Value) → Except Exn Artifact
  validateEnvelope : DecisionEnvelope → Except Exn Unit

structure Answers where
  world : Except Exn (Option Fields)
  defaultPolicyVersion : Except Exn ℤ
  bindings : Except Exn (List String)
  decisions : Except Exn (List String)
  latestHistoryMetadata : Except Exn (Option Fields)
  historyMetadata : Except Exn (List Fields)

structure Call where
  worldId : String
  asOf : Option String
  now : ℤ
  answers : Answers

structure DecisionState where
  effectiveMode : String
  datasetFingerprint : Option String
deriving DecidableEq

abbrev Memory := Dict String DecisionState

variable (env : Env)

def parseTimestamp (value : Value) : Option ℤ :=
  if value.truthy then
    let candidate := strip (value.toStr env.builtins)
    env.fromisoformat (if candidate.toList.getLast? = some 'Z'
      then String.ofList candidate.toList.dropLast ++ "+00:00" else candidate)
  else none

def wholeSeconds (instant : ℤ) : ℤ := instant / 1000000 * 1000000

def normalizeDecideAsOf (asOf : Option String) : Except Exn (Option String) :=
  let normalized := strip (asOf.getD "")
  if normalized = "" then .ok none
  else
    match parseTimestamp env (.str normalized) with
    | none => .error (.http 422 "invalid as_of; expected ISO-8601 timestamp")
    | some parsed => .ok (some (env.isoformat (wholeSeconds parsed)))

/-! ### Metadata -/

def betterEntry (target : ℤ) (best : Option (Fields × ℤ × ℤ)) (entry : Fields) : Option (Fields × ℤ × ℤ) :=
  let entryAsOf := parseTimestamp env (entry.get "as_of")
  if entryAsOf.any fun t => target < t then best
  else
    let rank := (entryAsOf.getD 0, (parseTimestamp env (entry.get "updated_at")).getD 0)
    match best with
    | none => some (entry, rank)
    | some (_, bestRank) =>
      if bestRank.1 < rank.1 ∨ (bestRank.1 = rank.1 ∧ bestRank.2 < rank.2) then some (entry, rank) else best

def resolveDecisionMetadata (answers : Answers) (asOf : Option String) : Except Exn (Option Fields) :=
  match asOf.filter fun t => t ≠ "" with
  | none => answers.latestHistoryMetadata
  | some t =>
    match parseTimestamp env (.str t) with
    | none => .ok none
    | some target => do
      let entries ← answers.historyMetadata
      return ((entries.foldl (betterEntry env target) none).map Prod.fst).filter fun entry => !entry.entries.isEmpty

def raising {α : Type} (r : Except Lib.Raised α) : Except Exn α := r.mapError Exn.raised

def normalizeRows (rows : Value) : Option Value :=
  match rows with
  | .none => none
  | rows =>
    match rows.toInt env.builtins with
    | .ok n => some (.int n)
    | .error _ => some rows

def normalizeCoverage : Value → Except Exn (Option (List ℤ))
  | .list vs => do
    let bounds ← raising (vs.mapM fun v => v.toInt env.builtins)
    return some bounds
  | _ => .ok none

def normalizeWarnings : Value → Except Exn (Option (List String))
  | .none => .ok none
  | v => do
    let items ← raising v.iter
    return some (items.map fun item => item.toStr env.builtins)

def normalizeArtifact : Value → Except Exn (Option Artifact)
  | .dict items => do
    let artifact ← env.validateArtifact items
    return some artifact
  | _ => .ok none

def truthyText (v : Value) : Option String := if v.truthy then some (v.toStr env.builtins) else none

def conformanceFlagsOf : Value → Option (List (Value × Value))
  | .dict flags => some flags
  | _ => none

def asOfWith (asOf : Option String) (artifact : Option Artifact) : Option String :=
  ((asOf.filter fun t => t ≠ "").or ((artifact.bind Artifact.asOf).filter fun t => t ≠ "")).or asOf

def normalizeMetadata (metadata : Option Fields) : Except Exn Metadata :=
  match metadata.filter fun d => !d.entries.isEmpty with
  | none => .ok Metadata.empty
  | some d => do
    let coverageBounds ← normalizeCoverage env (d.get "coverage_bounds")
    let conformanceWarnings ← normalizeWarnings env (d.get "conformance_warnings")
    let artifact ← normalizeArtifact env (d.get "artifact")
    let metadata : Metadata :=
      { datasetFingerprint := truthyText env (d.get "dataset_fingerprint")
        asOf := asOfWith (truthyText env (d.get "as_of")) artifact
        historyUpdatedAt := if (d.get "updated_at").truthy then some (d.get "updated_at") else none
        rows := (normalizeRows env (d.get "rows")).or ((artifact.bind Artifact.rows).map Value.int)
        coverageBounds := coverageBounds
        conformanceFlags := conformanceFlagsOf (d.get "conformance_flags")
        conformanceWarnings := conformanceWarnings
        artifact := artifact }
    return metadata

/-! ### The policy -/

def Metadata.metricsOk (m : Metadata) : Bool :=
  m.coverageBounds.any (fun bounds => !bounds.isEmpty) || m.conformanceFlags.any (fun flags => !flags.isEmpty) ||
    m.rows.any Value.truthy

def Metadata.fingerprinted (m : Metadata) : Bool := m.datasetFingerprint.any fun fp => fp ≠ ""

/-- What `_evaluate_policy` returns. -/
structure Evaluation where
  effectiveMode : String
  reason : String
  ttl : String

/-- What a call has read of its world. -/
structure Inputs where
  allowLive : Bool
  hasBindings : Bool
  hasDecisions : Bool
  metadata : Metadata

def chooseMode (inputs : Inputs) (previous : Option DecisionState) : String × List String × String :=
  let fingerprint := inputs.metadata.datasetFingerprint
  let hysteresis := previous.any fun p => decide (p.effectiveMode = "live" ∧ p.datasetFingerprint = fingerprint)
  if !inputs.hasBindings then ("validate", ["no_bindings"], "300s")
  else if !inputs.hasDecisions then ("validate", ["no_active_strategies"], "300s")
  else if inputs.allowLive && inputs.metadata.fingerprinted && inputs.metadata.metricsOk then
    ("live", ["bindings_present", "decisions_present", "allow_live", "dataset_fingerprint_ok", "metrics_ok"], "300s")
  else if inputs.allowLive && hysteresis then
    ("live", ["bindings_present", "decisions_present", "allow_live", "hysteresis_hold"], "120s")
  else
    ("compute-only", ["bindings_present", "decisions_present"] ++
      (if inputs.allowLive then [] else ["allow_live_disabled"]) ++
      (if inputs.metadata.fingerprinted then [] else ["dataset_fingerprint_missing"]) ++
      (if inputs.metadata.metricsOk then [] else ["required_metrics_missing"]), "300s")

def evaluatePolicy (worldId : String) (inputs : Inputs) (memory : Memory) : Evaluation × Memory :=
  let (effectiveMode, reasons, ttl) := chooseMode inputs (memory.get? worldId)
  let canonicalMode := canonicalizeWorldMode env.builtins.lower (.str effectiveMode)
  (⟨canonicalMode, join " & " reasons, ttl⟩, memory.set worldId ⟨canonicalMode, inputs.metadata.datasetFingerprint⟩)

def buildDecisionEtag (worldId : String) (version : ℤ) (metadata : Metadata) (asOfValue : String) (now : ℤ) : String :=
  join ":" (["w:" ++ worldId, "v" ++ toString version] ++ (metadata.datasetFingerprint.filter fun t => t ≠ "").toList ++
    (if asOfValue = "" then [] else [asOfValue]) ++
    (metadata.historyUpdatedAt.map fun v => v.toStr env.builtins).toList ++ [toString (now / 1000000)])

def readInputs (c : Call) : Except Exn (Option String × ℤ × Inputs) := do
  let requestedAsOf ← normalizeDecideAsOf env c.asOf
  match ← c.answers.world with
  | none => .error (.http 404 "world not found")
  | some world =>
    let version ← c.answers.defaultPolicyVersion
    let bindings ← c.answers.bindings
    let decisions ← c.answers.decisions
    let metadata ← resolveDecisionMetadata env c.answers requestedAsOf
    let normalized ← normalizeMetadata env metadata
    return (requestedAsOf, version,
      ⟨(world.get "allow_live").truthy, !bindings.isEmpty, !decisions.isEmpty, normalized⟩)

def envelopeOf (c : Call) (requestedAsOf : Option String) (version : ℤ) (inputs : Inputs) (evaluation : Evaluation) :
    DecisionEnvelope :=
  let resolvedAsOf := inputs.metadata.asOf.getD
    (match requestedAsOf with
      | some t => if t = "" then env.isoformat (wholeSeconds c.now) else t
      | none => env.isoformat (wholeSeconds c.now))
  { worldId := c.worldId
    policyVersion := version
    effectiveMode := evaluation.effectiveMode
    reason := evaluation.reason
    asOf := resolvedAsOf
    ttl := evaluation.ttl
    etag := buildDecisionEtag env c.worldId version inputs.metadata resolvedAsOf c.now
    metadata := inputs.metadata }

def decide (c : Call) (memory : Memory) : Except Exn DecisionEnvelope × Memory :=
  match readInputs env c with
  | .error e => (.error e, memory)
  | .ok (requestedAsOf, version, inputs) =>
    let (evaluation, memory') := evaluatePolicy env c.worldId inputs memory
    let envelope := envelopeOf env c requestedAsOf version inputs evaluation
    (do env.validateEnvelope envelope; return envelope, memory')

end Qmtl.WorldService.Decide
