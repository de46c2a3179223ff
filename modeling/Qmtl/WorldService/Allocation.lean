import Qmtl.Lib.Hoare
import Qmtl.WorldService.Rebalancing

/-!
`WorldService.upsert_allocations` with what it awaits, and the endpoint `POST /rebalancing/plan` that
plans from a request.
-/

namespace Qmtl.WorldService.Allocation

open Lib WorldService

/-! ### Requests -/

structure UpsertRequest where
  runId : String
  totalEquity : ℚ
  worldAllocations : Ratios
  positions : List PositionSlice
  strategyAllocAfterTotal : Option (Dict String Ratios)
  strategyAllocBeforeTotal : Option (Dict String Ratios)
  minTradeNotional : Option ℚ
  lotSizeBySymbol : Option Ratios
  execute : Bool
  mode : Option String
  overlay : Option OverlayConfig

structure RebalanceRequest where
  totalEquity : ℚ
  worldAllocBefore : Ratios
  worldAllocAfter : Ratios
  positions : List PositionSlice
  strategyAllocBeforeTotal : Option (Dict String Ratios)
  strategyAllocAfterTotal : Option (Dict String Ratios)
  minTradeNotional : Option ℚ
  lotSizeBySymbol : Option Ratios
  mode : Option String
  overlay : Option OverlayConfig
  schemaVersion : Option ℕ

structure PlanPayload where
  schemaVersion : ℕ
  perWorld : Dict String RebalancePlan
  globalDeltas : List SymbolDelta
  overlayDeltas : Option (List SymbolDelta)

structure AllocationState where
  allocation : ℚ
  strategyAllocTotal : Option Ratios

structure AllocationRun where
  etag : String
  plan : PlanPayload
  request : RebalanceRequest
  executed : Bool

structure Env where
  lower : Lower
  hash : UpsertRequest → String
  hash_ne : ∀ payload, hash payload ≠ ""
  bus : Bool
  executor : Bool

def defaultSchemaVersion : ℕ := 1

/-! ### Planning -/

section Planning

variable (lower : Lower)

def modeOf (mode : Option String) : String :=
  lower.fn (match mode with
    | none => "scaling"
    | some m => if m = "" then "scaling" else m)

def contextOf (r : RebalanceRequest) : MultiWorldRebalanceContext where
  totalEquity := r.totalEquity
  worldAllocBefore := r.worldAllocBefore
  worldAllocAfter := r.worldAllocAfter
  strategyAllocBeforeTotal := r.strategyAllocBeforeTotal
  strategyAllocAfterTotal := r.strategyAllocAfterTotal
  positions := r.positions
  minTradeNotional := r.minTradeNotional.getD 0
  lotSizeBySymbol := r.lotSizeBySymbol

def planOverlay (mode : String) (overlay : Option OverlayConfig) (positions : List PositionSlice) (before after : Ratios)
    (scaleByWorld : Option (Dict String ℚ)) : Except Exn (Option (List SymbolDelta)) :=
  if mode ≠ "overlay" then .ok none
  else
    match overlay with
    | none => .error (.http 422 "overlay config is required when mode='overlay'")
    | some overlay =>
      match overlayPlan positions before after overlay scaleByWorld with
      | .error message => .error (.http 422 message)
      | .ok deltas => .ok (some deltas)

def scalesOf (plan : MultiWorldRebalancePlan) : Dict String ℚ := plan.perWorld.mapValues RebalancePlan.scaleWorld

def postRebalancePlan (compatRebalanceV2 alphaMetricsRequired : Bool) (payload : RebalanceRequest) :
    Except Exn PlanPayload := do
  let mode := modeOf lower payload.mode
  if mode = "hybrid" then
    throw (.http 501 "Hybrid mode is not implemented yet. Use mode='scaling' or 'overlay'.")
  if alphaMetricsRequired ∧ payload.schemaVersion.getD 1 < 2 then
    throw (.http 400 "schema_version>=2 required when alpha_metrics_required is enabled")
  let version := min (max (payload.schemaVersion.getD 1) 1) (if compatRebalanceV2 then 2 else 1)
  if mode = "overlay" then
    let overlayDeltas ← planOverlay mode payload.overlay payload.positions payload.worldAllocBefore
      payload.worldAllocAfter none
    return ⟨version, Dict.empty, [], overlayDeltas⟩
  else
    let result := multiPlan (contextOf payload)
    let overlayDeltas ← planOverlay mode payload.overlay payload.positions payload.worldAllocBefore
      payload.worldAllocAfter (some (scalesOf result))
    return ⟨version, result.perWorld, result.globalDeltas, overlayDeltas⟩

def buildAllocationContext (payload : UpsertRequest) (worldIds : List String) (states : Dict String AllocationState) :
    Ratios × Dict String Ratios :=
  let before := Dict.ofList (worldIds.map fun wid => (wid, ((states.get? wid).map AllocationState.allocation).getD 0))
  let stored := Dict.ofList (states.entries.filterMap fun e =>
    match e.2.strategyAllocTotal with
    | none => none
    | some total => if total.entries.isEmpty then none else some (e.1, total))
  (before, stored.update (payload.strategyAllocBeforeTotal.getD Dict.empty).entries)

def requestOf (payload : UpsertRequest) (before : Ratios) (strategyBefore : Dict String Ratios) : RebalanceRequest where
  totalEquity := payload.totalEquity
  worldAllocBefore := before
  worldAllocAfter := payload.worldAllocations
  positions := payload.positions
  strategyAllocBeforeTotal := if strategyBefore.entries.isEmpty then none else some strategyBefore
  strategyAllocAfterTotal := payload.strategyAllocAfterTotal
  minTradeNotional := payload.minTradeNotional
  lotSizeBySymbol := payload.lotSizeBySymbol
  mode := payload.mode
  overlay := payload.overlay
  schemaVersion := some defaultSchemaVersion

def buildAllocationExecutionPlan (payload : UpsertRequest) (before : Ratios) (strategyBefore : Dict String Ratios) :
    Except Exn (PlanPayload × RebalanceRequest) := do
  let context : MultiWorldRebalanceContext :=
    { totalEquity := payload.totalEquity
      worldAllocBefore := before
      worldAllocAfter := payload.worldAllocations
      strategyAllocBeforeTotal := if strategyBefore.entries.isEmpty then none else some strategyBefore
      strategyAllocAfterTotal := payload.strategyAllocAfterTotal
      positions := payload.positions
      minTradeNotional := payload.minTradeNotional.getD 0
      lotSizeBySymbol := payload.lotSizeBySymbol }
  let result := multiPlan context
  let overlayDeltas ← planOverlay (modeOf lower payload.mode) payload.overlay context.positions context.worldAllocBefore
    context.worldAllocAfter (some (scalesOf result))
  return (⟨defaultSchemaVersion, result.perWorld, result.globalDeltas, overlayDeltas⟩,
    requestOf payload before strategyBefore)

end Planning

/-! ### Awaits -/

/-- The awaits of `upsert_allocations`. Those that are asked for a run carry the request they are made for. -/
inductive Op where
  | getRun (payload : UpsertRequest)
  | acquire (worldId : String)
  | release (worldId : String)
  | getStates (worldIds : List String)
  | recordRun (payload : UpsertRequest) (etag : String) (plan : PlanPayload) (request : RebalanceRequest)
  | setAllocations (allocations : Ratios) (strategyAllocations : Option (Dict String Ratios))
  | recordPlan (plan : PlanPayload)
  | publish (worldId : String) (plan : RebalancePlan)
  | execute (payload : UpsertRequest) (request : RebalanceRequest)
  | markExecuted (payload : UpsertRequest)

abbrev Op.Ans : Op → Type
  | getRun _ => Option AllocationRun
  | getStates _ => Dict String AllocationState
  | _ => Unit

abbrev Task (α : Type) := Coro Op Op.Ans Exn α

def ask (o : Op) : Task o.Ans := Coro.perform o

variable (env : Env)

def validateAllocationPayload (payload : UpsertRequest) : Except Exn Unit :=
  let invalid := (payload.worldAllocations.entries.filter fun e => e.2 < 0 || e.2 > 1).map Prod.fst
  if payload.worldAllocations.entries.isEmpty then .error (.http 422 "world_allocations cannot be empty")
  else if !invalid.isEmpty then
    .error (.http 422 ("Allocation ratios must be between 0 and 1: " ++ join ", " (invalid.insertionSort (· ≤ ·))))
  else .ok ()

def ensureSupportedMode (payload : UpsertRequest) : Except Exn Unit :=
  let mode := modeOf env.lower payload.mode
  if mode = "hybrid" then
    .error (.http 501 "Hybrid mode is not implemented yet. Use mode='scaling' or 'overlay'.")
  else if mode = "overlay" ∧ payload.overlay.isNone then
    .error (.http 422 "overlay config is required when mode='overlay'")
  else .ok ()

def executeRebalance (payload : UpsertRequest) (request : RebalanceRequest) : Task Unit :=
  if !env.executor then Coro.raise (.http 503 "Rebalance executor not configured")
  else (ask (.execute payload request)).tryExcept fun e =>
    Coro.raise (if e.isHttp then e else .http 502 "Rebalance execution failed")

structure Response where
  runId : String
  etag : String
  executed : Bool
  plan : PlanPayload

def persistAllocationPlan (payload : UpsertRequest) (etag : String) (plan : PlanPayload) (request : RebalanceRequest) :
    Task Unit := do
  ask (.recordRun payload etag plan request)
  ask (.setAllocations payload.worldAllocations payload.strategyAllocAfterTotal)
  ask (.recordPlan plan)
  if env.bus then
    Coro.forEach (fun e => (ask (.publish e.1 e.2)).tryExcept fun _ => Coro.ret ()) plan.perWorld.entries

def maybeExecute (payload : UpsertRequest) (request : RebalanceRequest) : Task Bool := do
  if !payload.execute then return false
  executeRebalance env payload request
  ask (.markExecuted payload)
  return true

def handleExisting (payload : UpsertRequest) (etag : String) (run : AllocationRun) : Task Response := do
  if run.etag ≠ "" ∧ run.etag ≠ etag then
    Coro.raise (.http 409 "run_id already used with a different payload")
  else
    let answer := if run.etag = "" then etag else run.etag
    if payload.execute ∧ !run.executed then
      executeRebalance env payload run.request
      ask (.markExecuted payload)
      return ⟨payload.runId, answer, true, run.plan⟩
    else return ⟨payload.runId, answer, run.executed, run.plan⟩

def lockWorlds {α : Type} (body : Task α) : List String → Task α
  | [] => body
  | wid :: wids => (ask (.acquire wid)).bind fun _ => (lockWorlds body wids).tryFinally fun _ => ask (.release wid)

/-- What runs under the locks. -/
def planAndExecute (payload : UpsertRequest) (etag : String) (worldIds : List String) : Task (Bool × PlanPayload) := do
  let states ← ask (.getStates worldIds)
  let (before, strategyBefore) := buildAllocationContext payload worldIds states
  let (plan, request) ← Coro.ofExcept (buildAllocationExecutionPlan env.lower payload before strategyBefore)
  persistAllocationPlan env payload etag plan request
  let executed ← maybeExecute env payload request
  return (executed, plan)

def upsertAllocations (payload : UpsertRequest) : Task Response := do
  Coro.ofExcept (validateAllocationPayload payload)
  Coro.ofExcept (ensureSupportedMode env payload)
  let etag := env.hash payload
  match ← ask (.getRun payload) with
  | some run => handleExisting env payload etag run
  | none =>
    let worldIds := payload.worldAllocations.keys.insertionSort (· ≤ ·)
    let (executed, plan) ← lockWorlds (planAndExecute env payload etag worldIds) worldIds
    return ⟨payload.runId, etag, executed, plan⟩

/-! ### The store -/

structure History where
  persisted : List (String × String)
  executed : List String
  changed : List ℕ

structure Store where
  runs : Dict String AllocationRun
  states : Dict String AllocationState
  plans : List PlanPayload
  published : List (String × RebalancePlan)
  locks : Dict String ℕ
  history : History

def setWorldAllocations (states : Dict String AllocationState) (allocations : Ratios)
    (strategyAllocations : Option (Dict String Ratios)) : Dict String AllocationState :=
  states.update (allocations.entries.map fun e =>
    (e.1, ⟨e.2, (strategyAllocations.getD Dict.empty).get? e.1⟩))

def markAllocationRunExecuted (runs : Dict String AllocationRun) (runId : String) : Dict String AllocationRun :=
  match runs.get? runId with
  | none => runs
  | some run => runs.set runId { run with executed := true }

def History.change (h : History) (i : ℕ) : History := { h with changed := h.changed ++ [i] }

/-- Perform an operation of call `i`. The executor and the bus may raise. -/
def perform (i : ℕ) (o : Op) (fault : Option Exn) (s : Store) : Except Exn o.Ans × Store :=
  match o with
  | .getRun payload => (.ok (s.runs.get? payload.runId), s)
  | .acquire worldId => (.ok (), { s with locks := s.locks.set worldId i })
  | .release worldId => (.ok (), { s with locks := s.locks.erase worldId })
  | .getStates worldIds =>
    (.ok (Dict.ofList (worldIds.filterMap fun wid => (s.states.get? wid).map fun st => (wid, st))), s)
  | .recordRun payload etag plan request =>
    (.ok (), { s with
      runs := s.runs.set payload.runId ⟨etag, plan, request, false⟩
      history := { s.history with persisted := s.history.persisted ++ [(payload.runId, etag)] }.change i })
  | .setAllocations allocations strategyAllocations =>
    (.ok (), { s with
      states := setWorldAllocations s.states allocations strategyAllocations
      history := s.history.change i })
  | .recordPlan plan => (.ok (), { s with plans := s.plans ++ [plan], history := s.history.change i })
  | .publish worldId plan =>
    match fault with
    | some e => (.error e, s)
    | none => (.ok (), { s with published := s.published ++ [(worldId, plan)], history := s.history.change i })
  | .execute payload _ =>
    match fault with
    | some e => (.error e, s)
    | none => (.ok (), { s with
        history := { s.history with executed := s.history.executed ++ [payload.runId] }.change i })
  | .markExecuted payload =>
    (.ok (), { s with
      runs := markAllocationRunExecuted s.runs payload.runId
      history := s.history.change i })

def History.empty : History := ⟨[], [], []⟩

end Qmtl.WorldService.Allocation
