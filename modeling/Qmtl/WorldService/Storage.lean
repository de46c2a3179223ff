import Qmtl.Foundation.ComputeContext
import Qmtl.Lib.Except
import Qmtl.Lib.PyValue
import Qmtl.WorldService.Store

/-! The in-memory `Storage` of the world service: a table for each kind of thing, most of them by world. -/

namespace Qmtl.WorldService.InMemory

open Lib Foundation

section

inductive Exn where
  | keyError (key : String)
  | valueError (message : String)
  | raised (e : Lib.Raised)

/-! ### Records -/

structure WorldRecord where
  id : String
  name : Option String
  description : Option String
  owner : Option String
  labels : List String
  state : String
  allowLive : Bool
  circuitBreaker : Bool
  defaultPolicyVersion : Option ℤ
  createdAt : String
  updatedAt : String
  metadata : Fields

structure WorldPolicies where
  versions : Dict ℤ Value
  default : Option ℤ

structure WorldNodeRef where
  executionDomain : String
  status : String
  lastEvalKey : Option String
  annotations : Option Value

/-- What a validation result depends on. -/
structure EvalContext where
  contractId : String
  datasetFingerprint : String
  codeVersion : String
  resourcePolicy : String

structure ValidationCacheEntry where
  evalKey : String
  nodeId : String
  executionDomain : String
  context : EvalContext
  result : String
  metrics : Fields
  timestamp : String

structure EdgeOverrideRecord where
  srcNodeId : String
  dstNodeId : String
  active : Bool
  updatedAt : String
  reason : Option String
deriving DecidableEq

structure AllocationState where
  worldId : String
  allocation : ℚ
  runId : Option String
  etag : Option String
  strategyAllocTotal : Option (Dict String ℚ)
  updatedAt : Option String

structure EvaluationRunRecord where
  runId : String
  worldId : String
  strategyId : String
  stage : String
  riskTier : String
  modelCardVersion : Option String
  metrics : Fields
  validation : Fields
  summary : Fields
  createdAt : Option String
  updatedAt : Option String

abbrev RunKey := String × String × String

def EvaluationRunRecord.key (run : EvaluationRunRecord) : RunKey := (run.worldId, run.strategyId, run.runId)

structure Revision where
  revision : ℕ
  recordedAt : String
  payload : EvaluationRunRecord

structure Storage where
  worlds : Dict String WorldRecord
  policies : Dict String WorldPolicies
  bindings : Dict String (List String)
  decisions : Dict String (List String)
  activations : Dict String Activation
  worldNodes : Dict String (Dict String (Dict String WorldNodeRef))
  validationCache : Dict String (Dict String (Dict String ValidationCacheEntry))
  edgeOverrides : Dict String (Dict (String × String) EdgeOverrideRecord)
  worldAllocations : Dict String AllocationState
  evaluationRuns : Dict RunKey EvaluationRunRecord
  evaluationRunHistory : Dict RunKey (List Revision)
  historyMetadata : Dict String (Dict String Fields)
  keyed : ∀ key run, evaluationRuns.get? key = some run → run.key = key

def Storage.empty : Storage where
  worlds := Dict.empty
  policies := Dict.empty
  bindings := Dict.empty
  decisions := Dict.empty
  activations := Dict.empty
  worldNodes := Dict.empty
  validationCache := Dict.empty
  edgeOverrides := Dict.empty
  worldAllocations := Dict.empty
  evaluationRuns := Dict.empty
  evaluationRunHistory := Dict.empty
  historyMetadata := Dict.empty
  keyed _ _ h := by cases h

structure Env where
  builtins : Builtins
  upper : String → String
  hash : String → String
  fromisoformat : String → Option ℤ

variable (env : Env)

/-! ### Worlds -/

def normalizeOptionalStr : Value → Except Exn (Option String)
  | .none => .ok none
  | .str s => .ok (stripped s)
  | _ => .error (.valueError "expected a string value")

def stripLabels : List Value → Except Exn (List String)
  | [] => .ok []
  | .str s :: items => do
    let labels ← stripLabels items
    return (stripped s).toList ++ labels
  | _ :: _ => .error (.valueError "labels must be strings")

def normalizeLabels : Value → Except Exn (List String)
  | .none => .ok []
  | .str s => .ok [s]
  | v =>
    match v.iter with
    | .ok items => stripLabels items
    | .error _ => .error (.valueError "labels must be a list of strings")

def normalizeState : Value → Except Exn String
  | .none => .ok "ACTIVE"
  | v =>
    let text := env.upper (v.toStr env.builtins)
    if text ∈ ["ACTIVE", "SUSPENDED", "DELETED"] then .ok text
    else .error (.valueError "state must be one of ACTIVE, SUSPENDED, DELETED")

def normalizeVersion : Value → Except Exn (Option ℤ)
  | .none => .ok none
  | v =>
    match v.toInt env.builtins with
    | .ok n => .ok (some n)
    | .error .overflowError => .error (.raised .overflowError)
    | .error _ => .error (.valueError "default_policy_version must be an integer")

def worldFields : List String :=
  ["id", "name", "description", "owner", "labels", "state", "allow_live", "circuit_breaker", "default_policy_version",
    "created_at", "updated_at"]

def withoutKeys (keys : List String) (d : Fields) : Fields where
  entries := d.entries.filter fun e => e.1 ∉ keys
  nodup := (List.filter_sublist.map Prod.fst).nodup d.nodup

def WorldRecord.fromPayload (now : String) (payload : Fields) : Except Exn WorldRecord :=
  match payload.get? "id" with
  | none => .error (.keyError "world payload missing 'id'")
  | some (.str rawId) =>
    match stripped rawId with
    | none => .error (.valueError "world id must be a non-empty string")
    | some worldId => do
      let labels ← normalizeLabels (payload.get "labels")
      let state ← normalizeState env (payload.get "state")
      let defaultPolicyVersion ← normalizeVersion env (payload.get "default_policy_version")
      let name ← normalizeOptionalStr (payload.get "name")
      let description ← normalizeOptionalStr (payload.get "description")
      let owner ← normalizeOptionalStr (payload.get "owner")
      let createdAt := ((payload.get "created_at").or (.str now)).toStr env.builtins
      let record : WorldRecord :=
        { id := worldId
          name := name
          description := description
          owner := owner
          labels := labels
          state := state
          allowLive := (payload.get "allow_live").truthy
          circuitBreaker := (payload.get "circuit_breaker").truthy
          defaultPolicyVersion := defaultPolicyVersion
          createdAt := createdAt
          updatedAt := ((payload.get "updated_at").or (.str createdAt)).toStr env.builtins
          metadata := withoutKeys worldFields payload }
      return record
  | some _ => .error (.valueError "world id must be a non-empty string")

def defaultEdgeOverrides : List (String × String × String) :=
  [("domain:backtest", "domain:live", "auto:cross-domain-block")]

def ensureDefaults (now : String) (bucket : Dict (String × String) EdgeOverrideRecord) :
    Dict (String × String) EdgeOverrideRecord :=
  defaultEdgeOverrides.foldl (fun bucket (src, dst, reason) =>
    match bucket.get? (src, dst) with
    | some _ => bucket
    | none => bucket.set (src, dst) ⟨src, dst, false, now, stripped reason⟩) bucket

def Storage.putWorld (s : Storage) (now : String) (record : WorldRecord) : Storage :=
  { s with
    worlds := s.worlds.set record.id record
    edgeOverrides := s.edgeOverrides.set record.id
      (ensureDefaults now ((s.edgeOverrides.get? record.id).getD Dict.empty)) }

def Storage.createWorld (s : Storage) (now : String) (payload : Fields) : Except Exn Storage :=
  match WorldRecord.fromPayload env now payload with
  | .error e => .error e
  | .ok record => .ok (s.putWorld now record)

def withoutWorld {ν : Type} (worldId : String) (d : Dict RunKey ν) : Dict RunKey ν where
  entries := d.entries.filter fun e => e.1.1 ≠ worldId
  nodup := (List.filter_sublist.map Prod.fst).nodup d.nodup

def Storage.deleteWorld (s : Storage) (worldId : String) : Storage :=
  { s with
    worlds := s.worlds.erase worldId
    activations := s.activations.erase worldId
    policies := s.policies.erase worldId
    bindings := s.bindings.erase worldId
    decisions := s.decisions.erase worldId
    worldNodes := s.worldNodes.erase worldId
    validationCache := s.validationCache.erase worldId
    edgeOverrides := s.edgeOverrides.erase worldId
    historyMetadata := s.historyMetadata.erase worldId
    evaluationRunHistory := withoutWorld worldId s.evaluationRunHistory }

/-! ### Evaluation runs and allocations -/

def orText (a : Option String) (b : String) : String :=
  match a with
  | some text => if text = "" then b else text
  | none => b

def Storage.history (s : Storage) (key : RunKey) : List Revision := (s.evaluationRunHistory.get? key).getD []

def Storage.putRun (s : Storage) (run : EvaluationRunRecord) (recordedAt : String) : Storage :=
  { s with
    evaluationRuns := s.evaluationRuns.set run.key run
    evaluationRunHistory := s.evaluationRunHistory.set run.key
      (s.history run.key ++ [⟨(s.history run.key).length + 1, recordedAt, run⟩])
    keyed := by
      intro key run' h
      rw [Dict.get?_set] at h
      split at h
      · rename_i hkey
        rw [← Option.some.inj h, hkey]
      · exact s.keyed key run' h }

structure RunRequest where
  worldId : String
  strategyId : String
  runId : String
  stage : String
  riskTier : String
  modelCardVersion : Option String
  metrics : Fields
  validation : Fields
  summary : Fields
  createdAt : Option String
  updatedAt : Option String

def RunRequest.key (r : RunRequest) : RunKey := (r.worldId, r.strategyId, r.runId)

def Storage.recordEvaluationRun (s : Storage) (now : String) (r : RunRequest) : Storage :=
  let updatedAt := orText r.updatedAt now
  s.putRun
    { runId := r.runId
      worldId := r.worldId
      strategyId := r.strategyId
      stage := r.stage
      riskTier := r.riskTier
      modelCardVersion := r.modelCardVersion
      metrics := r.metrics
      validation := r.validation
      summary := r.summary
      createdAt := some (orText r.createdAt updatedAt)
      updatedAt := some updatedAt } updatedAt

def overrideFields (override : Fields) (timestamp : String) : List (String × Value) :=
  [("override_status", override.get "status"), ("override_reason", override.get "reason"),
    ("override_actor", override.get "actor"), ("override_timestamp", .str timestamp)]

lemma nodup_overrideFields (override : Fields) (timestamp : String) :
    ((overrideFields override timestamp).map Prod.fst).Nodup := by
  show ["override_status", "override_reason", "override_actor", "override_timestamp"].Nodup
  decide

def EvaluationRunRecord.overridden (run : EvaluationRunRecord) (override : Fields) (timestamp : String) :
    EvaluationRunRecord :=
  { run with summary := run.summary.update (overrideFields override timestamp), updatedAt := some timestamp }

def Storage.recordEvaluationOverride (s : Storage) (now : String) (key : RunKey) (override : Fields) :
    Except Exn (EvaluationRunRecord × ℕ) × Storage :=
  match s.evaluationRuns.get? key with
  | none => (.error (.keyError "evaluation run not found"), s)
  | some run =>
    let timestamp := ((override.get "timestamp").or (.str now)).toStr env.builtins
    (.ok (run.overridden override timestamp, (s.history key).length + 1),
      s.putRun (run.overridden override timestamp) timestamp)

def exPostEvent (failure : Fields) (recordedAt caseId : String) : List (Value × Value) :=
  [(.str "case_id", .str caseId), (.str "status", (failure.get "status").or (.str "confirmed")),
    (.str "category", failure.get "category"), (.str "reason_code", failure.get "reason_code"),
    (.str "severity", failure.get "severity"), (.str "evidence_url", failure.get "evidence_url"),
    (.str "actor", failure.get "actor"), (.str "recorded_at", .str recordedAt),
    (.str "source", (failure.get "source").or (.str "manual")), (.str "notes", failure.get "notes")]

def isDict : Value → Bool
  | .dict _ => true
  | _ => false

def exPostFailures (summary : Fields) : List Value :=
  match summary.get "ex_post_failures" with
  | .list items => items.filter isDict
  | _ => []

def EvaluationRunRecord.failed (run : EvaluationRunRecord) (event : List (Value × Value)) (recordedAt : String) :
    EvaluationRunRecord :=
  { run with
    summary := run.summary.set "ex_post_failures" (.list (exPostFailures run.summary ++ [.dict event]))
    updatedAt := some recordedAt }

def failureTime (now : String) (failure : Fields) : String :=
  ((failure.get "recorded_at").or (.str now)).toStr env.builtins

def failureCase (uuid : String) (failure : Fields) : String :=
  ((failure.get "case_id").or (.str uuid)).toStr env.builtins

def Storage.recordExPostFailure (s : Storage) (now uuid : String) (key : RunKey) (failure : Fields) :
    Except Exn (EvaluationRunRecord × ℕ) × Storage :=
  match s.evaluationRuns.get? key with
  | none => (.error (.keyError "evaluation run not found"), s)
  | some run =>
    let recordedAt := failureTime env now failure
    let event := exPostEvent failure recordedAt (failureCase env uuid failure)
    (.ok (run.failed event recordedAt, (s.history key).length + 1), s.putRun (run.failed event recordedAt) recordedAt)

def Storage.setWorldAllocations (s : Storage) (now : String) (allocations : Dict String ℚ) (runId etag : String)
    (strategyAllocations : Option (Dict String (Dict String ℚ))) (updatedAt : Option String) : Storage :=
  let ts := orText updatedAt now
  { s with
    worldAllocations := s.worldAllocations.update (allocations.entries.map fun (worldId, ratio) =>
      (worldId, ⟨worldId, ratio, some runId, some etag, strategyAllocations.bind (Dict.get? · worldId), some ts⟩)) }

end

/-- `ActivationRepository.get`: the whole activation, or one entry of it. -/
inductive ActivationAnswer where
  | all (activation : Activation)
  | one (version : ℕ) (entry : Option ActivationEntry)

inductive Read where
  | getWorld
  | listPolicies
  | getPolicy (version : ℤ)
  | getDefaultPolicy
  | defaultPolicyVersion
  | listBindings
  | getDecisions
  | getActivation (strategyId side : Option String)
  | snapshotActivation
  | getWorldNode (nodeId : String) (executionDomain : Option String)
  | listWorldNodes (executionDomain : Option String)
  | getValidationCache (nodeId executionDomain : String) (context : EvalContext)
  | getEdgeOverride (srcNodeId dstNodeId : String)
  | listEdgeOverrides
  | getEvaluationRun (strategyId runId : String)
  | listEvaluationRuns (strategyId : Option String)
  | listEvaluationRunHistory (strategyId runId : String)
  | listHistoryMetadata
  | latestHistoryMetadata
  | getWorldAllocationState

abbrev Read.Answer : Read → Type
  | getWorld => Option WorldRecord
  | listPolicies => List ℤ
  | getPolicy _ => Option Value
  | getDefaultPolicy => Option Value
  | defaultPolicyVersion => ℤ
  | listBindings => List String
  | getDecisions => List String
  | getActivation _ _ => ActivationAnswer
  | snapshotActivation => Activation
  | getWorldNode _ _ => Except Exn (Option WorldNodeRef)
  | listWorldNodes _ => Except Exn (List (String × WorldNodeRef))
  | getValidationCache _ _ _ => Except Exn (Option ValidationCacheEntry)
  | getEdgeOverride _ _ => Option EdgeOverrideRecord
  | listEdgeOverrides => List EdgeOverrideRecord
  | getEvaluationRun _ _ => Option EvaluationRunRecord
  | listEvaluationRuns _ => List EvaluationRunRecord
  | listEvaluationRunHistory _ _ => List Revision
  | listHistoryMetadata => List Fields
  | latestHistoryMetadata => Option Fields
  | getWorldAllocationState => Option AllocationState

variable (env : Env)

def unknownDomain (executionDomain : String) : Exn :=
  .valueError ("unknown execution_domain '" ++ executionDomain ++ "'; expected one of " ++
    join ", " executionDomains)

def normalizeExecutionDomain (executionDomain : Option String) : Except Exn String :=
  let raw := strip (executionDomain.getD "")
  if raw = "" ∨ env.builtins.lower.fn raw = "default" then .ok "backtest"
  else match resolveExecutionDomain env.builtins.lower (some raw) with
    | none => .error (unknownDomain (executionDomain.getD ""))
    | some resolved =>
      let candidate := env.builtins.lower.fn (strip resolved)
      if candidate = "" ∨ candidate = "default" then .ok "backtest"
      else if candidate ∈ executionDomains then .ok candidate
      else .error (unknownDomain (executionDomain.getD ""))

/-! ### Nodes -/

def getWorldNode (bucket : Dict String (Dict String WorldNodeRef)) (nodeId : String)
    (executionDomain : Option String) : Except Exn (Option WorldNodeRef) :=
  match bucket.get? nodeId with
  | none => .ok none
  | some refs => do
    let domain ← normalizeExecutionDomain env executionDomain
    return refs.get? domain

def domainFilter (executionDomain : Option String) : Except Exn (Option String) :=
  match executionDomain with
  | none => some <$> normalizeExecutionDomain env none
  | some domain =>
    let candidate := env.builtins.lower.fn (strip domain)
    if candidate = "" then some <$> normalizeExecutionDomain env none
    else if candidate = "*" ∨ candidate = "all" then .ok none
    else some <$> normalizeExecutionDomain env (some candidate)

def selectNodes (bucket : Dict String (Dict String WorldNodeRef)) (domain : Option String) :
    List (String × WorldNodeRef) :=
  (bucket.keys.insertionSort (· ≤ ·)).flatMap fun nodeId =>
    let refs := (bucket.get? nodeId).getD Dict.empty
    let domains := match domain with
      | none => refs.keys.insertionSort (· ≤ ·)
      | some domain => [domain]
    (domains.filterMap refs.get?).map fun ref => (nodeId, ref)

def listWorldNodes (bucket : Dict String (Dict String WorldNodeRef)) (executionDomain : Option String) :
    Except Exn (List (String × WorldNodeRef)) :=
  if bucket.entries.isEmpty then .ok []
  else do
    let domain ← domainFilter env executionDomain
    return selectNodes bucket domain

def computeEvalKey (worldId nodeId executionDomain : String) (context : EvalContext) : String :=
  env.hash (join "\x00" ["validation-cache", worldId, nodeId, executionDomain, context.contractId,
    context.datasetFingerprint, context.codeVersion, context.resourcePolicy])

def getValidationCache (bucket : Dict String (Dict String ValidationCacheEntry))
    (worldId nodeId executionDomain : String) (context : EvalContext) :
    Except Exn (Option ValidationCacheEntry) × Dict String (Dict String ValidationCacheEntry) :=
  if bucket.entries.isEmpty then (.ok none, bucket)
  else
    let entries := (bucket.get? nodeId).getD Dict.empty
    let ensured := bucket.set nodeId entries
    if entries.entries.isEmpty then (.ok none, ensured)
    else match normalizeExecutionDomain env (some executionDomain) with
      | .error e => (.error e, ensured)
      | .ok domain =>
        match entries.get? domain with
        | none => (.ok none, ensured)
        | some entry =>
          if entry.evalKey = computeEvalKey env worldId nodeId domain context then (.ok (some entry), ensured)
          else
            let rest := entries.erase domain
            (.ok none, if rest.entries.isEmpty then ensured.erase nodeId else ensured.set nodeId rest)

def datetimeMin : ℤ := -62135596800000000

def parseIso (value : Value) : Option ℤ :=
  if value.truthy then
    let text := value.toStr env.builtins
    match text.toList.reverse with
    | 'Z' :: rest => env.fromisoformat (String.ofList rest.reverse ++ "+00:00")
    | _ => env.fromisoformat text
  else none

def metadataRank (payload : Fields) : ℤ × ℤ :=
  ((parseIso env (payload.get "as_of")).getD datetimeMin, (parseIso env (payload.get "updated_at")).getD datetimeMin)

def rankAbove (a b : ℤ × ℤ) : Bool := b.1 < a.1 || (a.1 = b.1 && b.2 < a.2)

def latestOf : List Fields → Option Fields
  | [] => none
  | first :: rest =>
    some (rest.foldl (fun best payload =>
      if rankAbove (metadataRank env payload) (metadataRank env best) then payload else best) first)

def pairLe (a b : String × String) : Bool := a.1 < b.1 || (a.1 = b.1 && a.2 ≤ b.2)

def Storage.listEvaluationRuns (s : Storage) (worldId : String) (strategyId : Option String) :
    List EvaluationRunRecord :=
  let selected := s.evaluationRuns.entries.filter fun e =>
    (worldId = "" || e.1.1 = worldId) && (strategyId.getD "" = "" || e.1.2.1 = strategyId.getD "")
  (selected.map Prod.snd).insertionSort fun a b => a.createdAt.getD "" ≤ b.createdAt.getD ""

def getActivation (activation : Option Activation) (strategyId side : Option String) : ActivationAnswer :=
  match activation with
  | none => .all ⟨0, Dict.empty⟩
  | some activation =>
    match strategyId, side with
    | some strategyId, some side => .one activation.version (activation.state.entryAt strategyId side)
    | _, _ => .all activation

/-- What a read of a world answers. -/
def Storage.read (s : Storage) (worldId : String) : (r : Read) → r.Answer
  | .getWorld => s.worlds.get? worldId
  | .listPolicies => ((s.policies.get? worldId).map fun p => p.versions.keys.insertionSort (· ≤ ·)).getD []
  | .getPolicy version => (s.policies.get? worldId).bind fun p => p.versions.get? version
  | .getDefaultPolicy => (s.policies.get? worldId).bind fun p => p.default.bind p.versions.get?
  | .defaultPolicyVersion => ((s.policies.get? worldId).bind WorldPolicies.default).getD 0
  | .listBindings => ((s.bindings.get? worldId).getD []).insertionSort (· ≤ ·)
  | .getDecisions => (s.decisions.get? worldId).getD []
  | .getActivation strategyId side => getActivation (s.activations.get? worldId) strategyId side
  | .snapshotActivation => (s.activations.get? worldId).getD ⟨0, Dict.empty⟩
  | .getWorldNode nodeId domain => getWorldNode env ((s.worldNodes.get? worldId).getD Dict.empty) nodeId domain
  | .listWorldNodes domain => listWorldNodes env ((s.worldNodes.get? worldId).getD Dict.empty) domain
  | .getValidationCache nodeId domain context =>
    (getValidationCache env ((s.validationCache.get? worldId).getD Dict.empty) worldId nodeId domain context).1
  | .getEdgeOverride src dst => ((s.edgeOverrides.get? worldId).getD Dict.empty).get? (src, dst)
  | .listEdgeOverrides =>
    let bucket := (s.edgeOverrides.get? worldId).getD Dict.empty
    (bucket.keys.insertionSort (pairLe · ·)).filterMap bucket.get?
  | .getEvaluationRun strategyId runId => s.evaluationRuns.get? (worldId, strategyId, runId)
  | .listEvaluationRuns strategyId => s.listEvaluationRuns worldId strategyId
  | .listEvaluationRunHistory strategyId runId => s.history (worldId, strategyId, runId)
  | .listHistoryMetadata =>
    let bucket := (s.historyMetadata.get? worldId).getD Dict.empty
    (bucket.keys.insertionSort (· ≤ ·)).filterMap bucket.get?
  | .latestHistoryMetadata => latestOf env ((s.historyMetadata.get? worldId).getD Dict.empty).values
  | .getWorldAllocationState => s.worldAllocations.get? worldId

end Qmtl.WorldService.InMemory
