import Qmtl.Lib.Hoare
import Qmtl.WorldService.Store

/-!
The apply flow: `ActivationEventPublisher`, `EdgeOverrideManager` and `ApplyCoordinator`.
-/

namespace Qmtl.WorldService

open Lib Lib.Coro

variable (env : Env)

/-! ### Activation events -/

def publishEntry (event : ActivationEvent) : Task Unit := do
  if env.bus then
    call .getActivation
    call (.publishActivationUpdate event)
  call .publishSnapshot

def updateActivationState (payload : ActivationPayload) (phase : Option String) (requiresAck : Bool)
    (sequence : Option ℕ) : Task Unit := do
  let (version, data) ← call (.updateActivation payload)
  publishEntry env ⟨payload.strategyId, payload.side, phase, data, version, requiresAck, sequence⟩

def upsertActivation (payload : ActivationPayload) : Task Unit :=
  updateActivationState env payload none false none

def nextSequence : Task ℕ := do
  modify fun m => { m with run := m.run.map fun st => { st with sequence := st.sequence + 1 } }
  let m ← memory
  return (m.run.map ApplyRunState.sequence).getD 0

def freezePayload (runId : String) (item : String × String × ActivationEntry) : ActivationPayload where
  strategyId := item.1
  side := item.2.1
  active := false
  weight := some (some item.2.2.weight)
  freeze := some true
  drain := some true
  effectiveMode := item.2.2.effectiveMode
  runId := some runId
  ts := none

def unfreezePayload (runId : String) (target : List String) (item : String × String × ActivationEntry) :
    ActivationPayload where
  strategyId := item.1
  side := item.2.1
  active := target.contains item.1
  weight := some (some item.2.2.weight)
  freeze := some false
  drain := some false
  effectiveMode := item.2.2.effectiveMode
  runId := some runId
  ts := none

def activatePayload (runId strategyId : String) : ActivationPayload where
  strategyId
  side := "long"
  active := true
  weight := some (some 1)
  freeze := some false
  drain := some false
  effectiveMode := none
  runId := some runId
  ts := none

def publishUpdate (phase : String) (payload : ActivationPayload) : Task Unit := do
  let sequence ← nextSequence
  updateActivationState env payload (some phase) true (some sequence)

def freezeWorld (runId : String) (state : Sides) : Task Unit :=
  forEach (publishUpdate env "freeze") (state.items.map (freezePayload runId))

def unfreezePayloads (runId : String) (state : Sides) (target : List String) : List ActivationPayload :=
  state.items.map (unfreezePayload runId target) ++
    ((env.iterate target).filter fun sid => state.items.all fun item => item.1 ≠ sid).map (activatePayload runId)

def unfreezeWorld (runId : String) (state : Sides) (target : List String) : Task Unit :=
  forEach (publishUpdate env "unfreeze") (unfreezePayloads env runId state target)

/-! ### Edge overrides -/

structure GatingPolicy where
  disableEdgesTo : List String
  enableEdgesTo : List String

structure EdgeOverridePlan where
  preDisable : List String
  postEnable : List String

def normalizeEdgeDomain (candidate : String) : Except Exn String :=
  let domain := env.lower.fn (strip candidate)
  if domain = "" then .error (.http 422 "edge override domain cannot be empty")
  else if executionDomains.contains domain then .ok domain
  else .error (.http 422 ("unknown execution domain for edge override: " ++ candidate))

def coerceEdgeTargets (candidates : List String) : Except Exn (List String) := do
  let domains ← candidates.mapM (normalizeEdgeDomain env)
  return domains.dedup.insertionSort (· ≤ ·)

def planFor : Option GatingPolicy → Except Exn EdgeOverridePlan
  | none => .ok ⟨[], []⟩
  | some gating => do
    let preDisable ← coerceEdgeTargets env gating.disableEdgesTo
    let postEnable ← coerceEdgeTargets env gating.enableEdgesTo
    return ⟨preDisable, postEnable⟩

def edgeKey (domain : String) : String × String := ("domain:backtest", "domain:" ++ domain)

def setEdgeOverride (active : Bool) (reason : String) (domain : String) : Task Unit := do
  let m ← memory
  if (m.saved.get? (edgeKey domain)).isNone then
    call (.saveOverride (edgeKey domain))
  call (.upsertEdgeOverride (edgeKey domain) active (some reason))

def applyPrePromotion (domains : List String) (runId : String) : Task Unit :=
  forEach (setEdgeOverride false ("pre_promotion_disable:" ++ runId)) domains

def applyPostPromotion (domains : List String) (runId : String) : Task Unit :=
  forEach (setEdgeOverride true ("post_promotion_enable:" ++ runId)) domains

def restoreOverride (e : (String × String) × Option Override) : Task Unit :=
  match e.2 with
  | none => call (.deleteEdgeOverride e.1)
  | some previous => call (.upsertEdgeOverride e.1 previous.active previous.reason)

def restoreOverrides : Task Unit := do
  let m ← memory
  forEach restoreOverride m.saved.entries

/-! ### The coordinator -/

structure ApplyAck where
  ok : Bool
  runId : String
  active : List String
  phase : ApplyStage

structure ApplyContext where
  runId : String
  plan : EdgeOverridePlan
  target : List String
  snapshot : Activation
  previousDecisions : List String

def ackForExisting (st : ApplyRunState) (incomingRunId : String) : Except Exn (ApplyAck ⊕ Bool) :=
  if !st.completed then
    if st.runId = incomingRunId then
      .ok (.inl ⟨st.stage != .rolledBack, st.runId, st.active, st.stage⟩)
    else if st.stage = .rolledBack then .ok (.inr true)
    else .error (.http 409 "apply in progress")
  else if st.runId = incomingRunId then .ok (.inl ⟨true, st.runId, st.active, .completed⟩)
  else .ok (.inr false)

def mark (stage : ApplyStage) (completed : Option Bool) (active : Option (List String)) : Task Unit :=
  modify fun m => { m with run := m.run.map fun st => st.mark stage completed active }

def buildContext (payload : ApplyRequest) (plan : EdgeOverridePlan) : Task ApplyContext := do
  let target ← call (.determineActive payload)
  let previousDecisions ← call .getDecisions
  let snapshot ← call .snapshotActivation
  return ⟨payload.runId, plan, target, snapshot, previousDecisions⟩

def recordRequested (context : ApplyContext) : Task Unit := do
  mark .requested (some false) (some context.target)
  call (.recordApplyStage .requested)

def enterFreeze (context : ApplyContext) : Task Unit := do
  mark .freeze none none
  freezeWorld env context.runId context.snapshot.state
  call (.recordApplyStage .freeze)

def switchDecisions (context : ApplyContext) : Task Unit := do
  call (.setDecisions context.target)
  mark .switch none none
  call (.recordApplyStage .switch)

def notifyPolicyUpdate (context : ApplyContext) : Task Unit := do
  if env.bus then
    call .defaultPolicyVersion
    call (.publishPolicyUpdate (context.target.insertionSort (· ≤ ·)))

def exitFreeze (context : ApplyContext) : Task Unit := do
  mark .unfreeze none none
  unfreezeWorld env context.runId context.snapshot.state context.target
  call (.recordApplyStage .unfreeze)

def stages (context : ApplyContext) : Task Unit := do
  applyPrePromotion context.plan.preDisable context.runId
  enterFreeze env context
  switchDecisions context
  notifyPolicyUpdate env context
  exitFreeze env context
  applyPostPromotion context.plan.postEnable context.runId

/-- The `try` block. -/
def body (context : ApplyContext) : Task ApplyAck := do
  stages env context
  mark .completed (some true) none
  call (.recordApplyStage .completed)
  return ⟨true, context.runId, context.target, .completed⟩

def handleFailure (context : ApplyContext) : Task ApplyAck := do
  call (.restoreActivation context.snapshot)
  call (.setDecisions context.previousDecisions)
  call (.recordApplyStage .rolledBack)
  let restored ← call .snapshotActivation
  freezeWorld env context.runId restored.state
  mark .rolledBack (some false) (some context.previousDecisions)
  raise (.http 500 "apply failed")

/-- The two `except` branches. -/
def recover (context : ApplyContext) (e : Exn) : Task ApplyAck := do
  restoreOverrides
  if e.isHttp then raise e else handleFailure env context

def startRun (context : ApplyContext) : Task ApplyAck := do
  modify fun m => { m with run := some ⟨context.runId, context.target, .requested, false, 0⟩ }
  recordRequested context
  -- a new `EdgeOverrideManager`
  modify fun m => { m with saved := Dict.empty }
  (body env context).tryExcept (recover env context)

def applyRun (payload : ApplyRequest) (gating : Option GatingPolicy) : Task ApplyAck := do
  let plan ← ofExcept (planFor env gating)
  let context ← buildContext payload plan
  startRun env context

def apply (payload : ApplyRequest) (gating : Option GatingPolicy) : Task ApplyAck := do
  let m ← memory
  match m.run with
  | none => applyRun env payload gating
  | some st =>
    match ← ofExcept (ackForExisting st payload.runId) with
    | .inl ack => return ack
    | .inr remove =>
      if remove then modify fun m => { m with run := none }
      applyRun env payload gating

end Qmtl.WorldService
