import Qmtl.Lib.Interleave
import Qmtl.WorldService.Storage

/-! The `ExtendedValidationWorker`: it lists the runs of a world, brings in what the risk hub and the portfolio say,
evaluates the extended layers, and writes the runs back with the results. -/

namespace Qmtl.WorldService.ExtendedValidation

open Lib WorldService.InMemory

/-- A policy for a call: none, one that is ready, or a payload to be validated. -/
inductive PolicyPayload where
  | absent
  | policy (p : Value)
  | raw (v : Value)

structure Job where
  worldId : String
  named : worldId ≠ ""
  stage : Option String
  policyPayload : PolicyPayload
  strategyId : Option String
  runId : Option String

structure Env where
  store : InMemory.Env
  hub : Bool
  validatePolicy : Value → Option Value
  enrichMetrics : Option Fields → PolicyPayload → EvaluationRunRecord → Except InMemory.Exn Fields
  baselineFromHub : Option Fields → Except InMemory.Exn Fields
  baselineFromSnapshot : Fields → Except InMemory.Exn Fields
  baselineFromRuns : List String → Activation → List EvaluationRunRecord → Except InMemory.Exn Fields
  augmentMetrics : Option Fields → Fields → Fields → EvaluationRunRecord → Except InMemory.Exn Fields
  evaluate : List EvaluationRunRecord → Value → Option String → Except InMemory.Exn (Dict String (Dict String Value))

/-- The calls that are awaited. -/
inductive Op where
  | getDefaultPolicy (worldId : String)
  | listEvaluationRuns (worldId : String)
  /- `_latest_hub_snapshot`, with the references in it resolved -/
  | latestHubSnapshot (worldId : String)
  | getDecisions (worldId : String)
  | snapshotActivation (worldId : String)
  | recordEvaluationRun (request : RunRequest)
  | recordEvaluationOverride (key : RunKey) (override : Fields)
  | recordExPostFailure (key : RunKey) (failure : Fields)

abbrev Op.Ans : Op → Type
  | getDefaultPolicy _ => Option Value
  | listEvaluationRuns _ => List EvaluationRunRecord
  | latestHubSnapshot _ => Option Fields
  | getDecisions _ => List String
  | snapshotActivation _ => Activation
  | recordEvaluationRun _ => Unit
  | recordEvaluationOverride _ _ => EvaluationRunRecord × ℕ
  | recordExPostFailure _ _ => EvaluationRunRecord × ℕ

abbrev Task (α : Type) := Coro Op Op.Ans InMemory.Exn α

variable (env : Env)

/-! ### The worker -/

def resolvePolicy (job : Job) : Task (Option Value) :=
  match job.policyPayload with
  | .absent => Coro.perform (Op.getDefaultPolicy job.worldId)
  | .policy p => return some p
  | .raw (.dict items) => return env.validatePolicy ((Value.lookup "policy" items).getD (.dict items))
  | .raw _ => return none

def filterRuns (job : Job) (runs : List EvaluationRunRecord) : List EvaluationRunRecord :=
  let lower := env.store.builtins.lower.fn
  let stage := lower (job.stage.getD "")
  let ofStage := runs.filter fun run => stage = "" || lower run.stage = stage
  let ofStrategy := match job.strategyId with
    | some sid => if sid = "" then ofStage else ofStage.filter fun run => run.strategyId = sid
    | none => ofStage
  match job.runId with
  | some rid => if rid = "" then ofStrategy else ofStrategy.filter fun run => run.runId = rid
  | none => ofStrategy

def latestHubSnapshot (worldId : String) : Task (Option Fields) :=
  if env.hub then Coro.perform (Op.latestHubSnapshot worldId) else return none

def enrichRun (job : Job) (hub : Option Fields) (run : EvaluationRunRecord) : Except InMemory.Exn EvaluationRunRecord :=
  if run.strategyId = "" then .ok run
  else do
    let metrics ← env.enrichMetrics hub job.policyPayload run
    return { run with metrics := metrics }

def portfolioBaseline (worldId excluded : String) : Task Fields := do
  let hub ← latestHubSnapshot env worldId
  let fromHub ← Coro.ofExcept ((hub.map env.baselineFromSnapshot).getD (.ok Dict.empty))
  if fromHub.entries.isEmpty then
    let decisions ← Coro.perform (Op.getDecisions worldId)
    let active := decisions.filter fun sid => sid ≠ excluded
    if active.isEmpty then return Dict.empty
    else
      let activation ← Coro.perform (Op.snapshotActivation worldId)
      let runs ← Coro.perform (Op.listEvaluationRuns worldId)
      Coro.ofExcept (env.baselineFromRuns active activation runs)
  else return fromHub

def augmentRun (job : Job) (hub : Option Fields) (fromHub : Fields) (run : EvaluationRunRecord) :
    Task EvaluationRunRecord :=
  if run.strategyId = "" then return run
  else do
    let baseline ← (if fromHub.entries.isEmpty then portfolioBaseline env job.worldId run.strategyId
      else return fromHub)
    let metrics ← Coro.ofExcept (env.augmentMetrics hub fromHub baseline run)
    return { run with metrics := metrics }

def augmentRuns (job : Job) (hub : Option Fields) (fromHub : Fields) :
    List EvaluationRunRecord → Task (List EvaluationRunRecord)
  | [] => return []
  | run :: runs => do
    let run' ← augmentRun env job hub fromHub run
    let runs' ← augmentRuns job hub fromHub runs
    return run' :: runs'

def mappingOf (v : Value) : List (Value × Value) :=
  match v with
  | .dict items => items
  | _ => []

def setItem (name : String) (v : Value) : List (Value × Value) → List (Value × Value)
  | [] => [(.str name, v)]
  | (.str k, w) :: rest => if k = name then (.str k, v) :: rest else (.str k, w) :: setItem name v rest
  | e :: rest => e :: setItem name v rest

def mergeResults (old : Value) (results : Dict String Value) : List (Value × Value) :=
  results.entries.foldl (fun merged e => setItem e.1 e.2 merged) (mappingOf old)

/-- The number of the evaluation that is to be written. -/
def nextRevision (validation : Fields) : ℤ :=
  match validation.get "extended_revision" with
  | .none => 1
  | v =>
    match v.toInt env.store.builtins with
    | .ok n => n + 1
    | .error _ => 1

def withResults (validation : Fields) (results : Dict String Value) (evaluatedAt : String) : Fields :=
  let history := match validation.get "extended_history" with
    | .list items => items
    | _ => []
  let merged := Value.dict (mergeResults (validation.get "results") results)
  let revision := nextRevision env validation
  let entry := Value.dict [(.str "revision", .int revision), (.str "evaluated_at", .str evaluatedAt),
    (.str "results", merged)]
  (((validation.set "results" merged).set "extended_revision" (.int revision)).set "extended_evaluated_at"
    (.str evaluatedAt)).set "extended_history" (.list (history ++ [entry]))

def requestOf (job : Job) (run : EvaluationRunRecord) (results : Dict String Value) (now : String) : RunRequest where
  worldId := job.worldId
  strategyId := run.strategyId
  runId := run.runId
  stage := run.stage
  riskTier := run.riskTier
  modelCardVersion := run.modelCardVersion
  metrics := run.metrics
  validation := withResults env run.validation results now
  summary := run.summary
  createdAt := none
  updatedAt := none

def persistExtendedResults (times : RunKey → String) (job : Job) (extended : Dict String (Dict String Value))
    (run : EvaluationRunRecord) : Task ℕ :=
  if run.strategyId = "" then return 0
  else
    match extended.get? run.strategyId with
    | none => return 0
    | some results => do
      Coro.perform (Op.recordEvaluationRun (requestOf env job run results (times run.key)))
      return 1

def persistAll (times : RunKey → String) (job : Job) (extended : Dict String (Dict String Value)) :
    List EvaluationRunRecord → Task ℕ
  | [] => return 0
  | run :: runs => do
    let n ← persistExtendedResults env times job extended run
    let m ← persistAll times job extended runs
    return n + m

def run (times : RunKey → String) (job : Job) : Task ℕ := do
  let policy ← resolvePolicy env job
  match policy with
  | none => return 0
  | some policy =>
    let runs ← Coro.perform (Op.listEvaluationRuns job.worldId)
    let filtered := filterRuns env job runs
    if filtered.isEmpty then return 0
    else
      let hub ← latestHubSnapshot env job.worldId
      let enriched ← Coro.ofExcept (filtered.mapM (enrichRun env job hub))
      let fromHub ← Coro.ofExcept (env.baselineFromHub hub)
      let augmented ← augmentRuns env job hub fromHub enriched
      let extended ← Coro.ofExcept (env.evaluate augmented policy job.stage)
      if extended.entries.isEmpty then return 0
      else persistAll env times job extended augmented

end Qmtl.WorldService.ExtendedValidation
